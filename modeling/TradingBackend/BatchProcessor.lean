import TradingBackend.Goroutines

/-!
# The batch processor

`engine/batch_processor.go`: three batches, each under a mutex of its own,
that are handed to a handler when they are full, at every tick of
`periodicFlush`, by the `Flush` methods and at the end by `Stop`. A step
is a critical section of one mutex, a call of a handler, or an operation
on the context or the wait group.

`flushLocked` copies the batch, gives up the lock for the handler and
empties the batch when it has the lock again. What was added in between
is emptied away, and a flush that starts in between hands the same items
over a second time. If every section of a batch starts when no flush of
it is under way (`Alone`), the batch is in one of the three states of
`Phase`, and everything added is handed over once, in its order.

Left out: the counters, which nothing modelled reads.
-/

namespace TradingBackend

inductive BatchKind where
  | events
  | trades
  | orders
deriving DecidableEq

/-- What a `BatchProcessor` is made with: the sizes, and which handlers are
set. -/
structure BatchConfig where
  batchSize : BatchKind → Int
  hasHandler : BatchKind → Bool

/-- Who calls a `Flush` method. -/
inductive FlushCaller where
  | client
  | periodicFlush
  | stop
deriving DecidableEq

/-- Where a goroutine is; `rest` are the batches it goes on to flush. -/
inductive BatchRole (α : Type) where
  /-- Outside the processor. -/
  | absent
  /-- `Start`, before `go bp.periodicFlush()`. -/
  | starting
  /-- `periodicFlush`, at its `select`. -/
  | selecting
  /-- `Stop`, at `bp.wg.Wait()`. -/
  | joining
  /-- Before the next `Flush` method, or before it returns. -/
  | calling (rest : List BatchKind) (caller : FlushCaller)
  /-- In `flushLocked`, without the lock, before the handler is called. -/
  | handling (k : BatchKind) (batch : List α) (rest : List BatchKind) (caller : FlushCaller)
  /-- In `flushLocked`, waiting for the lock after the handler. -/
  | truncating (k : BatchKind) (rest : List BatchKind) (caller : FlushCaller)
deriving DecidableEq

/-- Where a goroutine goes on. -/
def FlushCaller.resume {α : Type} : FlushCaller → BatchRole α
  | .client => .absent
  | .periodicFlush => .selecting
  | .stop => .absent

/-- The order in which `periodicFlush` and `Stop` flush. -/
def allBatches : List BatchKind := [.events, .trades, .orders]

/-- `BatchProcessor`, with its goroutines. -/
structure BatchProcessor (α : Type) where
  batch : BatchKind → List α
  cancelled : Bool
  wg : Nat
  roles : GoID → BatchRole α

inductive BatchEvent (α : Type) where
  | add (g : GoID) (k : BatchKind) (item : α)
  | call (g : GoID) (k : BatchKind)
  | flush (g : GoID) (k : BatchKind)
  | handle (g : GoID) (k : BatchKind) (batch : List α)
  | truncate (g : GoID) (k : BatchKind)
  | returned (g : GoID) (caller : FlushCaller)
  | start (g : GoID)
  | spawn (g p : GoID)
  | tick (p : GoID)
  | exit (p : GoID)
  | stop (g : GoID)
  | joined (g : GoID)
deriving DecidableEq

namespace BatchProcessor

variable {α : Type}

def new : BatchProcessor α := ⟨fun _ => [], false, 0, fun _ => .absent⟩

def move (s : BatchProcessor α) (g : GoID) (role : BatchRole α) : BatchProcessor α :=
  { s with roles := Function.update s.roles g role }

def setBatch (s : BatchProcessor α) (k : BatchKind) (batch : List α) : BatchProcessor α :=
  { s with batch := Function.update s.batch k batch }

/-- `flushEventsLocked`, `flushTradesLocked` and `flushOrdersLocked`, until
the lock is given up. -/
def flushLocked (cfg : BatchConfig) (s : BatchProcessor α) (g : GoID) (k : BatchKind)
    (rest : List BatchKind) (caller : FlushCaller) : BatchProcessor α :=
  if (s.batch k).isEmpty then s.move g (.calling rest caller)
  else if cfg.hasHandler k then s.move g (.handling k (s.batch k) rest caller)
  else (s.setBatch k []).move g (.calling rest caller)

/-- What the three `Add` methods have in common, until the lock is given
up. -/
def add (cfg : BatchConfig) (s : BatchProcessor α) (g : GoID) (k : BatchKind) (item : α) :
    BatchProcessor α :=
  let s := s.setBatch k (s.batch k ++ [item])
  if cfg.batchSize k ≤ (s.batch k).length then s.flushLocked cfg g k [] .client
  else s.move g (.calling [] .client)

def addEvent (cfg : BatchConfig) (s : BatchProcessor α) (g : GoID) (event : α) : BatchProcessor α :=
  s.add cfg g .events event

def addTrade (cfg : BatchConfig) (s : BatchProcessor α) (g : GoID) (trade : α) : BatchProcessor α :=
  s.add cfg g .trades trade

def addOrder (cfg : BatchConfig) (s : BatchProcessor α) (g : GoID) (order : α) : BatchProcessor α :=
  s.add cfg g .orders order

inductive Step (cfg : BatchConfig) (s : BatchProcessor α) :
    BatchEvent α → BatchProcessor α → Prop where
  -- the critical sections
  | add {g k item} (h : s.roles g = .absent) : Step cfg s (.add g k item) (s.add cfg g k item)
  | call {g k} (h : s.roles g = .absent) : Step cfg s (.call g k) (s.move g (.calling [k] .client))
  | flush {g k rest caller} (h : s.roles g = .calling (k :: rest) caller) :
      Step cfg s (.flush g k) (s.flushLocked cfg g k rest caller)
  | handle {g k batch rest caller} (h : s.roles g = .handling k batch rest caller) :
      Step cfg s (.handle g k batch) (s.move g (.truncating k rest caller))
  | truncate {g k rest caller} (h : s.roles g = .truncating k rest caller) :
      Step cfg s (.truncate g k) ((s.setBatch k []).move g (.calling rest caller))
  | returned {g caller} (h : s.roles g = .calling [] caller) :
      Step cfg s (.returned g caller) (s.move g caller.resume)
  -- `Start` and `periodicFlush`
  | start {g} (h : s.roles g = .absent) :
      Step cfg s (.start g) { s.move g .starting with wg := s.wg + 1 }
  | spawn {g p} (h : s.roles g = .starting) (hp : s.roles p = .absent) :
      Step cfg s (.spawn g p) ((s.move g .absent).move p .selecting)
  | tick {p} (h : s.roles p = .selecting) :
      Step cfg s (.tick p) (s.move p (.calling allBatches .periodicFlush))
  | exit {p} (h : s.roles p = .selecting) (hcancel : s.cancelled = true) :
      Step cfg s (.exit p) { s.move p .absent with wg := s.wg - 1 }
  -- `Stop`
  | stop {g} (h : s.roles g = .absent) :
      Step cfg s (.stop g) { s.move g .joining with cancelled := true }
  | joined {g} (h : s.roles g = .joining) (hwg : s.wg = 0) :
      Step cfg s (.joined g) (s.move g (.calling allBatches .stop))

end BatchProcessor

/-! ## What was added and what was handed over -/

namespace BatchEvent

variable {α : Type}

def added (k : BatchKind) : BatchEvent α → List α
  | .add _ k' item => if k' = k then [item] else []
  | _ => []

def handed (k : BatchKind) : BatchEvent α → List α
  | .handle _ k' batch => if k' = k then batch else []
  | _ => []

end BatchEvent

namespace BatchRole

variable {α : Type}

/-- The batch that a goroutine is flushing: copied and not yet emptied. -/
def flushing : BatchRole α → Option BatchKind
  | .handling k _ _ _ => some k
  | .truncating k _ _ => some k
  | _ => none

/-- The batches that a goroutine has still to flush. -/
def todo : BatchRole α → List BatchKind
  | .joining => allBatches
  | .calling rest _ => rest
  | .handling k _ rest _ => k :: rest
  | .truncating k rest _ => k :: rest
  | _ => []

end BatchRole

namespace BatchProcessor

variable {α : Type} {cfg : BatchConfig} {s s' : BatchProcessor α} {e : BatchEvent α} {g : GoID}
  {k k' : BatchKind} {role : BatchRole α} {added handed : List α}

def Idle (s : BatchProcessor α) (k : BatchKind) : Prop := ∀ g, (s.roles g).flushing ≠ some k

/-- The `Add` and `Flush` methods of a batch take the lock only when no
flush of it is under way. -/
def Alone (k : BatchKind) (s : BatchProcessor α) : BatchEvent α → Prop
  | .add _ k' _ => k' = k → s.Idle k
  | .flush _ k' => k' = k → s.Idle k
  | _ => True

/-- A batch between two steps: at rest, or copied by one goroutine that
has yet to call the handler, or handed over and yet to be emptied. -/
inductive Phase (s : BatchProcessor α) (k : BatchKind) (added handed : List α) : Prop where
  | idle (hidle : s.Idle k) (heq : added = handed ++ s.batch k)
  | copied {g rest caller} (hrole : s.roles g = .handling k (s.batch k) rest caller)
      (honly : ∀ g', (s.roles g').flushing = some k → g' = g) (heq : added = handed ++ s.batch k)
  | handled {g rest caller} (hrole : s.roles g = .truncating k rest caller)
      (honly : ∀ g', (s.roles g').flushing = some k → g' = g) (heq : added = handed)

/-- A batch that is empty, with no flush under way. -/
structure Drained (s : BatchProcessor α) (k : BatchKind) : Prop where
  batch : s.batch k = []
  idle : s.Idle k

theorem move_self : (s.move g role).roles g = role := Function.update_self ..

theorem move_of_ne {g' : GoID} (h : g' ≠ g) : (s.move g role).roles g' = s.roles g' :=
  Function.update_of_ne h ..

theorem setBatch_self {batch : List α} : (s.setBatch k batch).batch k = batch :=
  Function.update_self ..

/-! ### Steps that leave a batch alone -/

/-- The batch and those who flush it are untouched. -/
structure Untouched (k : BatchKind) (s s' : BatchProcessor α) : Prop where
  batch : s'.batch k = s.batch k
  roles : ∀ g, s'.roles g = s.roles g
    ∨ (s.roles g).flushing ≠ some k ∧ (s'.roles g).flushing ≠ some k

theorem Untouched.trans {s₁ : BatchProcessor α} (h : Untouched k s s₁) (h' : Untouched k s₁ s') :
    Untouched k s s' := by
  refine ⟨h'.batch.trans h.batch, fun g => ?_⟩
  rcases h.roles g with hg | ⟨hold, hnew⟩
  · rw [← hg]
    exact h'.roles g
  · rcases h'.roles g with hg | ⟨-, hnew'⟩
    · exact Or.inr ⟨hold, hg ▸ hnew⟩
    · exact Or.inr ⟨hold, hnew'⟩

theorem untouched_of_roles (hbatch : s'.batch k = s.batch k)
    (hroles : s'.roles = Function.update s.roles g role) (hold : (s.roles g).flushing ≠ some k)
    (hnew : role.flushing ≠ some k) : Untouched k s s' := by
  refine ⟨hbatch, fun g' => ?_⟩
  rw [hroles]
  by_cases hg : g' = g
  · subst hg
    rw [Function.update_self]
    exact Or.inr ⟨hold, hnew⟩
  · exact Or.inl (Function.update_of_ne hg ..)

theorem untouched_move (hold : (s.roles g).flushing ≠ some k) (hnew : role.flushing ≠ some k) :
    Untouched k s (s.move g role) :=
  untouched_of_roles rfl rfl hold hnew

theorem untouched_setBatch (hne : k' ≠ k) (batch : List α) : Untouched k s (s.setBatch k' batch) :=
  ⟨Function.update_of_ne hne.symm .., fun _ => Or.inl rfl⟩

theorem untouched_flushLocked {rest : List BatchKind} {caller : FlushCaller} (hne : k' ≠ k)
    (hold : (s.roles g).flushing ≠ some k) :
    Untouched k s (s.flushLocked cfg g k' rest caller) := by
  unfold flushLocked
  split_ifs
  · exact untouched_move hold nofun
  · exact untouched_move hold fun h => hne (Option.some.inj h)
  · exact (untouched_setBatch hne []).trans (untouched_move hold nofun)

theorem untouched_add {item : α} (hne : k' ≠ k) (hold : (s.roles g).flushing ≠ some k) :
    Untouched k s (s.add cfg g k' item) := by
  unfold add
  dsimp only
  split_ifs
  · exact (untouched_setBatch hne _).trans (untouched_flushLocked hne hold)
  · exact (untouched_setBatch hne _).trans (untouched_move hold nofun)

theorem Untouched.idle (h : Untouched k s s') (hidle : s.Idle k) : s'.Idle k := by
  intro g
  rcases h.roles g with hg | ⟨-, hnew⟩
  · rw [hg]
    exact hidle g
  · exact hnew

theorem Untouched.drained (h : Untouched k s s') (hd : s.Drained k) : s'.Drained k :=
  ⟨h.batch.trans hd.batch, h.idle hd.idle⟩

theorem Untouched.stays (h : Untouched k s s') (hg : (s.roles g).flushing = some k) :
    s'.roles g = s.roles g :=
  (h.roles g).resolve_right fun hne => hne.1 hg

theorem Untouched.only (h : Untouched k s s') {g₁ : GoID}
    (honly : ∀ g', (s.roles g').flushing = some k → g' = g₁) :
    ∀ g', (s'.roles g').flushing = some k → g' = g₁ := by
  intro g' hg'
  rcases h.roles g' with hsame | ⟨-, hnew⟩
  · exact honly g' (hsame ▸ hg')
  · exact absurd hg' hnew

theorem Untouched.phase (h : Untouched k s s') (hp : s.Phase k added handed) :
    s'.Phase k added handed := by
  cases hp with
  | idle hidle heq => exact .idle (h.idle hidle) (h.batch ▸ heq)
  | @copied g rest caller hrole honly heq =>
      have hstays := h.stays (show (s.roles g).flushing = some k by rw [hrole]; rfl)
      rw [hrole, ← h.batch] at hstays
      exact .copied hstays (h.only honly) (h.batch ▸ heq)
  | @handled g rest caller hrole honly heq =>
      have hstays := h.stays (show (s.roles g).flushing = some k by rw [hrole]; rfl)
      exact .handled (hstays.trans hrole) (h.only honly) heq

/-! ### Steps of a batch -/

theorem idle_move (h : s.Idle k) (hnew : role.flushing ≠ some k) : (s.move g role).Idle k :=
  (untouched_move (h g) hnew).idle h

theorem phase_flushLocked {rest : List BatchKind} {caller : FlushCaller}
    (hhandler : cfg.hasHandler k = true) (hidle : s.Idle k) (heq : added = handed ++ s.batch k) :
    (s.flushLocked cfg g k rest caller).Phase k added handed := by
  unfold flushLocked
  rw [if_pos hhandler]
  split_ifs
  · exact .idle (idle_move hidle nofun) heq
  · refine .copied move_self (fun g' hg' => ?_) heq
    by_contra hne
    rw [move_of_ne hne] at hg'
    exact hidle g' hg'

theorem phase_add {item : α} (hhandler : cfg.hasHandler k = true) (hidle : s.Idle k)
    (heq : added = handed ++ s.batch k) :
    (s.add cfg g k item).Phase k (added ++ [item]) handed := by
  have heq' : added ++ [item] = handed ++ (s.setBatch k (s.batch k ++ [item])).batch k := by
    rw [heq, List.append_assoc, setBatch_self]
  unfold add
  dsimp only
  split_ifs
  · exact phase_flushLocked hhandler hidle heq'
  · exact .idle (idle_move hidle nofun) heq'

theorem Phase.heq_of_idle (h : s.Phase k added handed) (hidle : s.Idle k) :
    added = handed ++ s.batch k := by
  cases h with
  | idle _ heq => exact heq
  | copied hrole => exact absurd (by rw [hrole]; rfl) (hidle _)
  | handled hrole => exact absurd (by rw [hrole]; rfl) (hidle _)

theorem Phase.handle {batch : List α} {rest : List BatchKind} {caller : FlushCaller}
    (h : s.Phase k added handed) (hg : s.roles g = .handling k batch rest caller) :
    (s.move g (.truncating k rest caller)).Phase k added (handed ++ batch) := by
  have hflush : (s.roles g).flushing = some k := by rw [hg]; rfl
  have honly : ∀ {g₁}, (∀ g', (s.roles g').flushing = some k → g' = g₁) →
      ∀ g', ((s.move g (.truncating k rest caller)).roles g').flushing = some k → g' = g := by
    intro g₁ honly g' hg'
    by_contra hne
    rw [move_of_ne hne] at hg'
    exact hne ((honly g' hg').trans (honly g hflush).symm)
  cases h with
  | idle hidle => exact absurd hflush (hidle g)
  | copied hrole hall heq =>
      obtain rfl := hall g hflush
      obtain ⟨-, rfl, -, -⟩ := BatchRole.handling.inj (hg.symm.trans hrole)
      exact .handled move_self (honly hall) heq
  | handled hrole hall heq =>
      obtain rfl := hall g hflush
      cases hg.symm.trans hrole

theorem Phase.truncate {rest : List BatchKind} {caller : FlushCaller}
    (h : s.Phase k added handed) (hg : s.roles g = .truncating k rest caller) :
    ((s.setBatch k []).move g (.calling rest caller)).Drained k ∧ added = handed := by
  have hflush : (s.roles g).flushing = some k := by rw [hg]; rfl
  cases h with
  | idle hidle => exact absurd hflush (hidle g)
  | copied hrole hall heq =>
      obtain rfl := hall g hflush
      cases hg.symm.trans hrole
  | handled hrole hall heq =>
      obtain rfl := hall g hflush
      refine ⟨⟨setBatch_self, fun g' hg' => ?_⟩, heq⟩
      by_cases hne : g' = g
      · subst hne
        rw [move_self] at hg'
        cases hg'
      · rw [move_of_ne hne] at hg'
        exact hne (hall g' hg')

theorem Drained.phase (h : s.Drained k) (heq : added = handed) : s.Phase k added handed := by
  refine .idle h.idle ?_
  rw [h.batch, List.append_nil, heq]

theorem Drained.eq (h : s.Drained k) (hp : s.Phase k added handed) : handed = added := by
  rw [hp.heq_of_idle h.idle, h.batch, List.append_nil]

/-- What a step does to a batch: it adds to it, starts to flush it, hands
it over, empties it, or leaves it alone. -/
inductive Touched (cfg : BatchConfig) (s : BatchProcessor α) (k : BatchKind) :
    BatchEvent α → BatchProcessor α → Prop where
  | add {g item} (h : s.roles g = .absent) : Touched cfg s k (.add g k item) (s.add cfg g k item)
  | flush {g rest caller} (h : s.roles g = .calling (k :: rest) caller) :
      Touched cfg s k (.flush g k) (s.flushLocked cfg g k rest caller)
  | handle {g batch rest caller} (h : s.roles g = .handling k batch rest caller) :
      Touched cfg s k (.handle g k batch) (s.move g (.truncating k rest caller))
  | truncate {g rest caller} (h : s.roles g = .truncating k rest caller) :
      Touched cfg s k (.truncate g k) ((s.setBatch k []).move g (.calling rest caller))
  | untouched {e₁ : BatchEvent α} {s₁ : BatchProcessor α} (hadded : e₁.added k = [])
      (hhanded : e₁.handed k = []) (h : Untouched k s s₁) : Touched cfg s k e₁ s₁

theorem Step.touched (h : Step cfg s e s') (k : BatchKind) : Touched cfg s k e s' := by
  have hflushing : ∀ {g role}, s.roles g = role → role.flushing = none →
      (s.roles g).flushing ≠ some k := by
    intro g role hg hnone
    rw [hg, hnone]
    exact nofun
  cases h with
  | @add g k' item h =>
      by_cases hk : k' = k
      · subst hk
        exact .add h
      · exact .untouched (if_neg hk) rfl (untouched_add hk (hflushing h rfl))
  | @flush g k' rest caller h =>
      by_cases hk : k' = k
      · subst hk
        exact .flush h
      · exact .untouched rfl rfl (untouched_flushLocked hk (hflushing h rfl))
  | @handle g k' batch rest caller h =>
      by_cases hk : k' = k
      · subst hk
        exact .handle h
      · have hne : some k' ≠ some k := fun heq => hk (Option.some.inj heq)
        exact .untouched rfl (if_neg hk) (untouched_move (by rw [h]; exact hne) hne)
  | @truncate g k' rest caller h =>
      by_cases hk : k' = k
      · subst hk
        exact .truncate h
      · have hne : some k' ≠ some k := fun heq => hk (Option.some.inj heq)
        exact .untouched rfl rfl ((untouched_setBatch hk []).trans
          (untouched_move (by rw [setBatch, h]; exact hne) nofun))
  | call h => exact .untouched rfl rfl (untouched_move (hflushing h rfl) nofun)
  | @returned g caller h =>
      refine .untouched rfl rfl (untouched_move (hflushing h rfl) ?_)
      cases caller <;> exact nofun
  | start h => exact .untouched rfl rfl (untouched_of_roles rfl rfl (hflushing h rfl) nofun)
  | @spawn g p h hp =>
      have hparent : Untouched k s (s.move g .absent) := untouched_move (hflushing h rfl) nofun
      refine .untouched rfl rfl (hparent.trans (untouched_move ?_ nofun))
      by_cases hpg : p = g
      · rw [hpg, move_self]
        exact nofun
      · rw [move_of_ne hpg]
        exact hflushing hp rfl
  | tick h => exact .untouched rfl rfl (untouched_move (hflushing h rfl) nofun)
  | exit h => exact .untouched rfl rfl (untouched_of_roles rfl rfl (hflushing h rfl) nofun)
  | stop h => exact .untouched rfl rfl (untouched_of_roles rfl rfl (hflushing h rfl) nofun)
  | joined h => exact .untouched rfl rfl (untouched_move (hflushing h rfl) nofun)

theorem Phase.step (hp : s.Phase k added handed) (hhandler : cfg.hasHandler k = true)
    (h : Step cfg s e s') (halone : s.Alone k e) :
    s'.Phase k (added ++ e.added k) (handed ++ e.handed k) := by
  cases h.touched k with
  | add hg =>
      simp only [BatchEvent.added, BatchEvent.handed, if_true, List.append_nil]
      exact phase_add hhandler (halone rfl) (hp.heq_of_idle (halone rfl))
  | flush hg =>
      simp only [BatchEvent.added, BatchEvent.handed, List.append_nil]
      exact phase_flushLocked hhandler (halone rfl) (hp.heq_of_idle (halone rfl))
  | handle hg =>
      simp only [BatchEvent.added, BatchEvent.handed, if_true, List.append_nil]
      exact hp.handle hg
  | truncate hg =>
      simp only [BatchEvent.added, BatchEvent.handed, List.append_nil]
      obtain ⟨hd, heq⟩ := hp.truncate hg
      exact hd.phase heq
  | untouched hadded hhanded hu =>
      rw [hadded, hhanded, List.append_nil, List.append_nil]
      exact hu.phase hp

/-! ### Stop -/

theorem mem_allBatches (k : BatchKind) : k ∈ allBatches := by
  cases k <;> decide

/-- A batch that is drained stays so until something is added. -/
theorem Drained.step (hd : s.Drained k) (h : Step cfg s e s') (hadd : ∀ g item, e ≠ .add g k item) :
    s'.Drained k := by
  cases h.touched k with
  | add => exact absurd rfl (hadd _ _)
  | @flush g rest caller hg =>
      have hmove : s.flushLocked cfg g k rest caller = s.move g (.calling rest caller) :=
        if_pos (List.isEmpty_iff.mpr hd.batch)
      rw [hmove]
      exact Untouched.drained (untouched_move (hd.idle g) nofun) hd
  | handle hg => exact absurd (by rw [hg]; rfl) (hd.idle _)
  | truncate hg => exact absurd (by rw [hg]; rfl) (hd.idle _)
  | untouched _ _ hu => exact hu.drained hd

section

variable {g' : GoID} {rest : List BatchKind} {caller : FlushCaller} {item : α}

theorem flushLocked_of_ne (hne : g' ≠ g) :
    (s.flushLocked cfg g k rest caller).roles g' = s.roles g' := by
  unfold flushLocked
  split_ifs <;> exact move_of_ne hne

theorem add_of_ne (hne : g' ≠ g) : (s.add cfg g k item).roles g' = s.roles g' := by
  unfold add
  dsimp only
  split_ifs
  · exact flushLocked_of_ne hne
  · exact move_of_ne hne

theorem todo_flushLocked (h : k' ∈ rest) :
    k' ∈ ((s.flushLocked cfg g k rest caller).roles g).todo := by
  unfold flushLocked
  split_ifs
  · rw [move_self]
    exact h
  · rw [move_self]
    exact List.mem_cons_of_mem k h
  · rw [move_self]
    exact h

/-- A flush of a batch that is at rest finds it empty, or has it in hand. -/
theorem todo_or_drained_flushLocked (hhandler : cfg.hasHandler k = true) (hidle : s.Idle k) :
    k ∈ ((s.flushLocked cfg g k rest caller).roles g).todo
      ∨ (s.flushLocked cfg g k rest caller).Drained k := by
  unfold flushLocked
  rw [if_pos hhandler]
  split_ifs with hempty
  · exact Or.inr ⟨List.isEmpty_iff.mp hempty, idle_move hidle nofun⟩
  · rw [move_self]
    exact Or.inl List.mem_cons_self

end

/-- What a goroutine has still to flush it has still to flush after a
step, unless the batch is drained. -/
theorem Step.todo (h : Step cfg s e s') (hhandler : cfg.hasHandler k = true) (halone : s.Alone k e)
    (hp : s.Phase k added handed) (hk : k ∈ (s.roles g).todo) :
    k ∈ (s'.roles g).todo ∨ s'.Drained k := by
  -- `g` is none of the goroutines that have nothing to flush
  have hbusy : ∀ {g₁}, (s.roles g₁).todo = [] → g ≠ g₁ := by
    rintro g₁ hnone rfl
    rw [hnone] at hk
    cases hk
  have hother : ∀ {g₁} {role : BatchRole α}, s'.roles = Function.update s.roles g₁ role →
      (s.roles g₁).todo = [] → k ∈ (s'.roles g).todo ∨ s'.Drained k := by
    intro g₁ role hroles hnone
    rw [hroles, Function.update_of_ne (hbusy hnone)]
    exact Or.inl hk
  cases h with
  | @add g₁ k₁ item hg =>
      rw [add_of_ne (hbusy (by rw [hg]; rfl))]
      exact Or.inl hk
  | @flush g₁ k₁ rest caller hg =>
      by_cases hne : g = g₁
      · subst hne
        rw [hg] at hk
        rcases List.mem_cons.mp hk with rfl | hk
        · exact todo_or_drained_flushLocked hhandler (halone rfl)
        · exact Or.inl (todo_flushLocked hk)
      · rw [flushLocked_of_ne hne]
        exact Or.inl hk
  | @handle g₁ k₁ batch rest caller hg =>
      by_cases hne : g = g₁
      · subst hne
        rw [hg] at hk
        rw [move_self]
        exact Or.inl hk
      · rw [move_of_ne hne]
        exact Or.inl hk
  | @truncate g₁ k₁ rest caller hg =>
      by_cases hne : g = g₁
      · subst hne
        rw [hg] at hk
        rcases List.mem_cons.mp hk with rfl | hk
        · exact Or.inr (hp.truncate hg).1
        · rw [move_self]
          exact Or.inl hk
      · rw [move_of_ne hne]
        exact Or.inl hk
  | @joined g₁ hg =>
      by_cases hne : g = g₁
      · subst hne
        rw [move_self]
        exact Or.inl (mem_allBatches k)
      · rw [move_of_ne hne]
        exact Or.inl hk
  | @spawn g₁ p hg hp' =>
      have hne : g ≠ p := hbusy (by rw [hp']; rfl)
      have hne' : g ≠ g₁ := hbusy (by rw [hg]; rfl)
      rw [move_of_ne hne, move_of_ne hne']
      exact Or.inl hk
  | call hg => exact hother rfl (by rw [hg]; rfl)
  | returned hg => exact hother rfl (by rw [hg]; rfl)
  | start hg => exact hother rfl (by rw [hg]; rfl)
  | tick hg => exact hother rfl (by rw [hg]; rfl)
  | exit hg => exact hother rfl (by rw [hg]; rfl)
  | stop hg => exact hother rfl (by rw [hg]; rfl)

theorem Phase.run {es : List (BatchEvent α)} (hhandler : cfg.hasHandler k = true)
    (htrace : Trace (Where (Step cfg) (Alone k)) s es s') (hp : s.Phase k added handed) :
    s'.Phase k (added ++ es.flatMap (BatchEvent.added k))
      (handed ++ es.flatMap (BatchEvent.handed k)) := by
  refine htrace.invariant (P := fun es s' => s'.Phase k
    (added ++ es.flatMap (BatchEvent.added k)) (handed ++ es.flatMap (BatchEvent.handed k))) ?_ ?_
  · simpa using hp
  · rintro es s₁ e s₂ hp₁ ⟨halone, hstep⟩
    rw [List.flatMap_append, List.flatMap_append, List.flatMap_singleton, List.flatMap_singleton,
      ← List.append_assoc, ← List.append_assoc]
    exact hp₁.step hhandler hstep halone

/-- After a call of `Stop` that nothing is added after, the batch is still
to be flushed by it or drained, and it is drained when `Stop` has
returned. -/
theorem drained_of_returned {es : List (BatchEvent α)} (hhandler : cfg.hasHandler k = true)
    (htrace : Trace (Where (Step cfg) (Alone k)) s es s') (hp : s.Phase k added handed)
    (hstop : k ∈ (s.roles g).todo) (hadd : ∀ g' item, .add g' k item ∉ es)
    (hreturned : .returned g .stop ∈ es) : s'.Drained k := by
  refine ((htrace.invariant (P := fun es s' => (∃ added handed, s'.Phase k added handed)
    ∧ ((∀ g' item, .add g' k item ∉ es) →
      (k ∈ (s'.roles g).todo ∨ s'.Drained k) ∧ (.returned g .stop ∈ es → s'.Drained k)))
    ⟨⟨_, _, hp⟩, fun _ => ⟨Or.inl hstop, fun h => absurd h List.not_mem_nil⟩⟩ ?_).2 hadd).2
    hreturned
  rintro es s₁ e s₂ ⟨⟨a, d, hp₁⟩, hrun⟩ ⟨halone, hstep⟩
  refine ⟨⟨_, _, hp₁.step hhandler hstep halone⟩, fun hadd => ?_⟩
  have hnot : ∀ g' item, e ≠ .add g' k item := by
    rintro g' item rfl
    exact hadd g' item (List.mem_append_right _ (List.mem_singleton_self _))
  obtain ⟨htodo, hret⟩ := hrun fun g' item hmem => hadd g' item (List.mem_append_left _ hmem)
  refine ⟨?_, fun hmem => ?_⟩
  · rcases htodo with htodo | hd
    · exact hstep.todo hhandler halone hp₁ htodo
    · exact Or.inr (hd.step hstep hnot)
  · rcases List.mem_append.mp hmem with hmem | hmem
    · exact (hret hmem).step hstep hnot
    · obtain rfl := List.mem_singleton.mp hmem
      rcases htodo with htodo | hd
      · cases hstep with
        | returned hg =>
            rw [hg] at htodo
            cases htodo
      · exact hd.step hstep hnot

theorem phase_new : (new : BatchProcessor α).Phase k [] [] := .idle (fun _ => nofun) rfl

end BatchProcessor

open BatchProcessor in
/-- In every run whose `Add` and `Flush` methods take the lock of the batch
only when no flush of it is under way, and in which nothing is added to it
after a call of `Stop`: when that call has returned, the handler
has got everything that was added, once and in its order. -/
theorem batch_conserved {α : Type} {cfg : BatchConfig} {s : BatchProcessor α} {k : BatchKind}
    {g : GoID} {before after : List (BatchEvent α)} (hhandler : cfg.hasHandler k = true)
    (htrace : Trace (Where (Step cfg) (Alone k)) BatchProcessor.new (before ++ .stop g :: after) s)
    (hadd : ∀ g' item, .add g' k item ∉ after) (hreturned : .returned g .stop ∈ after) :
    (before ++ .stop g :: after).flatMap (BatchEvent.handed k) =
      (before ++ .stop g :: after).flatMap (BatchEvent.added k) := by
  obtain ⟨s₁, s₂, hbefore, ⟨halone, hstep⟩, hafter⟩ := htrace.split
  have hp := (phase_new.run hhandler hbefore).step hhandler hstep halone
  have hstop : k ∈ (s₂.roles g).todo := by
    cases hstep with
    | stop h =>
        show k ∈ (Function.update s₁.roles g .joining g).todo
        rw [Function.update_self]
        exact mem_allBatches k
  have hd := drained_of_returned hhandler hafter hp hstop hadd hreturned
  exact hd.eq (by simpa using phase_new.run hhandler htrace)

def fifty : BatchConfig := ⟨fun _ => 50, fun _ => true⟩

/-- Trade 7 is flushed, and order 5 is added while its handler is running; trade
8 is copied for its handler. -/
def flushedOneByOne : List (BatchEvent Nat) :=
  [.add 0 .trades 7, .returned 0 .client, .call 1 .trades, .flush 1 .trades, .add 0 .orders 5,
    .returned 0 .client, .handle 1 .trades [7], .truncate 1 .trades, .returned 1 .client,
    .add 0 .trades 8, .returned 0 .client, .call 1 .trades, .flush 1 .trades]

/-- `Stop` overlaps with the flush of trade 8, and flushes order 5 itself. -/
def stopWithOrder : List (BatchEvent Nat) :=
  [.joined 3, .handle 1 .trades [8], .flush 3 .events, .truncate 1 .trades, .returned 1 .client,
    .flush 3 .trades, .flush 3 .orders, .handle 3 .orders [5], .truncate 3 .orders,
    .returned 3 .stop]

theorem batch_conserved_fifty :
    (∃ s, Trace (Where (BatchProcessor.Step fifty) (BatchProcessor.Alone .trades))
      BatchProcessor.new (flushedOneByOne ++ .stop 3 :: stopWithOrder) s)
    ∧ (flushedOneByOne ++ .stop 3 :: stopWithOrder).flatMap (BatchEvent.handed .trades) =
      (flushedOneByOne ++ .stop 3 :: stopWithOrder).flatMap (BatchEvent.added .trades) := by
  have h₀ : Trace (Where (BatchProcessor.Step fifty) (BatchProcessor.Alone .trades))
    (BatchProcessor.new : BatchProcessor Nat) [] _ := .nil
  have h₁ := h₀.next (.add 0 .trades 7) ⟨fun _ => nofun, .add rfl⟩
    |>.next (.returned 0 .client) ⟨trivial, .returned rfl⟩
    |>.next (.call 1 .trades) ⟨trivial, .call rfl⟩
    |>.next (.flush 1 .trades) ⟨fun _ => by rintro (_ | _ | g) <;> exact nofun, .flush rfl⟩
    |>.next (.add 0 .orders 5) ⟨nofun, .add rfl⟩
    |>.next (.returned 0 .client) ⟨trivial, .returned rfl⟩
    |>.next (.handle 1 .trades [7]) ⟨trivial, .handle rfl⟩
    |>.next (.truncate 1 .trades) ⟨trivial, .truncate rfl⟩
    |>.next (.returned 1 .client) ⟨trivial, .returned rfl⟩
  have h₂ := h₁.next (.add 0 .trades 8) ⟨fun _ => by rintro (_ | _ | g) <;> exact nofun, .add rfl⟩
    |>.next (.returned 0 .client) ⟨trivial, .returned rfl⟩
    |>.next (.call 1 .trades) ⟨trivial, .call rfl⟩
    |>.next (.flush 1 .trades) ⟨fun _ => by rintro (_ | _ | g) <;> exact nofun, .flush rfl⟩
    |>.next (.stop 3) ⟨trivial, .stop rfl⟩ |>.next (.joined 3) ⟨trivial, .joined rfl rfl⟩
    |>.next (.handle 1 .trades [8]) ⟨trivial, .handle rfl⟩
    |>.next (.flush 3 .events) ⟨nofun, .flush rfl⟩
    |>.next (.truncate 1 .trades) ⟨trivial, .truncate rfl⟩
    |>.next (.returned 1 .client) ⟨trivial, .returned rfl⟩
  have h₃ := h₂.next (.flush 3 .trades)
      ⟨fun _ => by rintro (_ | _ | _ | _ | g) <;> exact nofun, .flush rfl⟩
    |>.next (.flush 3 .orders) ⟨nofun, .flush rfl⟩
    |>.next (.handle 3 .orders [5]) ⟨trivial, .handle rfl⟩
    |>.next (.truncate 3 .orders) ⟨trivial, .truncate rfl⟩
    |>.next (.returned 3 .stop) ⟨trivial, .returned rfl⟩
  exact ⟨⟨_, h₃⟩, batch_conserved rfl h₃ (by simp [stopWithOrder]) (by decide)⟩

def stopWithNothing : List (BatchEvent Nat) :=
  [.joined 3, .flush 3 .events, .flush 3 .trades, .flush 3 .orders, .returned 3 .stop]

/-- Trade 8 is added while the handler has trade 7: when the handler is
done, both are emptied away. -/
def addedWhileHandled : List (BatchEvent Nat) :=
  [.add 0 .trades 7, .returned 0 .client, .call 1 .trades, .flush 1 .trades, .add 0 .trades 8,
    .returned 0 .client, .handle 1 .trades [7], .truncate 1 .trades, .returned 1 .client]

/-- Two flushes at a time copy the same trade. -/
def flushedTwice : List (BatchEvent Nat) :=
  [.add 0 .trades 7, .returned 0 .client, .call 1 .trades, .flush 1 .trades, .call 2 .trades,
    .flush 2 .trades, .handle 1 .trades [7], .handle 2 .trades [7], .truncate 1 .trades,
    .returned 1 .client, .truncate 2 .trades, .returned 2 .client]

/-- `Stop` is called when every other call has returned, and yet the
handler has not got what was added. -/
theorem batch_loses_and_repeats :
    ((∃ s₁, Trace (BatchProcessor.Step fifty) BatchProcessor.new addedWhileHandled s₁
        ∧ ∀ g, s₁.roles g = .absent)
      ∧ (∃ s, Trace (BatchProcessor.Step fifty) BatchProcessor.new
        (addedWhileHandled ++ .stop 3 :: stopWithNothing) s)
      ∧ (addedWhileHandled ++ .stop 3 :: stopWithNothing).flatMap (BatchEvent.added .trades)
        = [7, 8]
      ∧ (addedWhileHandled ++ .stop 3 :: stopWithNothing).flatMap (BatchEvent.handed .trades)
        = [7])
    ∧ (∃ s₁, Trace (BatchProcessor.Step fifty) BatchProcessor.new flushedTwice s₁
        ∧ ∀ g, s₁.roles g = .absent)
      ∧ (∃ s, Trace (BatchProcessor.Step fifty) BatchProcessor.new
        (flushedTwice ++ .stop 3 :: stopWithNothing) s)
      ∧ (flushedTwice ++ .stop 3 :: stopWithNothing).flatMap (BatchEvent.added .trades) = [7]
      ∧ (flushedTwice ++ .stop 3 :: stopWithNothing).flatMap (BatchEvent.handed .trades)
        = [7, 7] := by
  have h₀ : Trace (BatchProcessor.Step fifty) (BatchProcessor.new : BatchProcessor Nat) [] _ := .nil
  have hcopied := h₀.next (.add 0 .trades 7) (.add rfl)
    |>.next (.returned 0 .client) (.returned rfl) |>.next (.call 1 .trades) (.call rfl)
    |>.next (.flush 1 .trades) (.flush rfl)
  refine ⟨?_, ?_⟩
  · have h₁ := hcopied.next (.add 0 .trades 8) (.add rfl)
      |>.next (.returned 0 .client) (.returned rfl) |>.next (.handle 1 .trades [7]) (.handle rfl)
      |>.next (.truncate 1 .trades) (.truncate rfl) |>.next (.returned 1 .client) (.returned rfl)
    have h₂ := h₁.next (.stop 3) (.stop rfl) |>.next (.joined 3) (.joined rfl rfl)
      |>.next (.flush 3 .events) (.flush rfl) |>.next (.flush 3 .trades) (.flush rfl)
      |>.next (.flush 3 .orders) (.flush rfl) |>.next (.returned 3 .stop) (.returned rfl)
    exact ⟨⟨_, h₁, by rintro (_ | _ | g) <;> rfl⟩, ⟨_, h₂⟩, by decide, by decide⟩
  · have h₁ := hcopied.next (.call 2 .trades) (.call rfl) |>.next (.flush 2 .trades) (.flush rfl)
      |>.next (.handle 1 .trades [7]) (.handle rfl) |>.next (.handle 2 .trades [7]) (.handle rfl)
      |>.next (.truncate 1 .trades) (.truncate rfl) |>.next (.returned 1 .client) (.returned rfl)
      |>.next (.truncate 2 .trades) (.truncate rfl) |>.next (.returned 2 .client) (.returned rfl)
    have h₂ := h₁.next (.stop 3) (.stop rfl) |>.next (.joined 3) (.joined rfl rfl)
      |>.next (.flush 3 .events) (.flush rfl) |>.next (.flush 3 .trades) (.flush rfl)
      |>.next (.flush 3 .orders) (.flush rfl) |>.next (.returned 3 .stop) (.returned rfl)
    exact ⟨⟨_, h₁, by rintro (_ | _ | _ | g) <;> rfl⟩, ⟨_, h₂⟩, by decide, by decide⟩

end TradingBackend
