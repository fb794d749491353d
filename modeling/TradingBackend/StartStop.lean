import TradingBackend.Goroutines

/-!
# Start and Stop

`Life` is what the calls of `Start` and `Stop` and the life of the worker
make of the engine: the flags, the wait group, and what every goroutine
is in it. Clients and commands are not; every step of the system is a
step of its `Life` or leaves it alone (`Step.life`).

There is at most one worker as long as `Start` is not passed again while
one is there or under way (`OneWorker`). `isRunning` is set before the
worker is made and reset after it has gone, and `stopChan` stays closed:
`Orderly` says what calls the engine is good for, and `Steady` that it
then works.
-/

namespace TradingBackend

/-- What a goroutine is in the life of the worker. A worker has its
context while it is in its loop, and none in `drainCommands`. -/
inductive Role where
  | other
  | startAdd (ctx : Ctx)
  | startGo (ctx : Ctx)
  | stopClose
  | stopWait
  | stopReset
  | working (ctx : Option Ctx)
  | returning
deriving DecidableEq

namespace Role

/-- In a `Start` call that set `isRunning`. -/
def inStart : Role → Bool
  | startAdd _ | startGo _ => true
  | _ => false

/-- In a `Stop` call that found the engine running. -/
def inStop : Role → Bool
  | stopClose | stopWait | stopReset => true
  | _ => false

/-- A worker, or a `Start` call that will make one. -/
def isEngaged : Role → Bool
  | startAdd _ | startGo _ | working _ | returning => true
  | _ => false

theorem inStop_of_engaged {r : Role} (h : r.isEngaged = true) : r.inStop = false := by
  cases r <;> first | rfl | cases h

def isCounted : Role → Bool
  | startGo _ | working _ | returning => true
  | _ => false

/-- The context whose end a worker waits for or will wait for. -/
def ctx? : Role → Option Ctx
  | startAdd ctx | startGo ctx => some ctx
  | working ctx => ctx
  | _ => none

end Role

def Goroutine.role : Goroutine → Role
  | idle | sending _ | waiting _ => .other
  | startAdd ctx => .startAdd ctx
  | startGo ctx => .startGo ctx
  | stopClose => .stopClose
  | stopWait => .stopWait
  | stopReset => .stopReset
  | selecting ctx => .working (some ctx)
  | processing ctx _ | responding ctx _ _ => .working ctx
  | draining => .working none
  | returning => .returning

theorem Goroutine.resume_role (ctx : Option Ctx) : (resume ctx).role = .working ctx := by
  cases ctx <;> rfl

/-- A step that has nothing to do with the life of the worker. -/
def Event.isSilent : Event → Bool
  | .start _ _ passed | .stop _ passed => !passed
  | .isRunning _ | .call .. | .full .. | .send .. | .receive .. => true
  | .take .. | .process .. | .respond .. => true
  | _ => false

/-- The engine as `Start`, `Stop` and the worker see it. -/
structure Life where
  isRunning : Bool
  stopClosed : Bool
  wg : Nat
  cancelled : Ctx → Bool
  roles : GoID → Role
  panicked : Bool

namespace Life

def move (l : Life) (i : GoID) (r : Role) : Life :=
  { l with roles := Function.update l.roles i r }

theorem move_eq_self {l : Life} {i : GoID} {r : Role} (h : r = l.roles i) : l.move i r = l := by
  rw [move, h, Function.update_eq_self]

@[simp] theorem move_roles_self (l : Life) (i : GoID) (r : Role) : (l.move i r).roles i = r :=
  Function.update_self ..

theorem move_roles_of_ne (l : Life) {i j : GoID} (r : Role) (h : j ≠ i) :
    (l.move i r).roles j = l.roles j :=
  Function.update_of_ne h ..

inductive Step (l : Life) : Event → Life → Prop where
  | silent {e} (h : e.isSilent = true) : Step l e l
  | start {i ctx} (h : l.roles i = .other) (hrun : l.isRunning = false) :
      Step l (.start i ctx true) ({ l with isRunning := true }.move i (.startAdd ctx))
  | add {i ctx} (h : l.roles i = .startAdd ctx) :
      Step l (.add i) ({ l with wg := l.wg + 1 }.move i (.startGo ctx))
  | go {i j ctx} (h : l.roles i = .startGo ctx) (hj : l.roles j = .other) :
      Step l (.go i j) ((l.move i .other).move j (.working (some ctx)))
  | stop {i} (h : l.roles i = .other) (hrun : l.isRunning = true) :
      Step l (.stop i true) (l.move i .stopClose)
  | close {i} (h : l.roles i = .stopClose) (hopen : l.stopClosed = false) :
      Step l (.close i) ({ l with stopClosed := true }.move i .stopWait)
  | closeClosed {i} (h : l.roles i = .stopClose) (hclosed : l.stopClosed = true) :
      Step l (.close i) { l with panicked := true }
  | wait {i} (h : l.roles i = .stopWait) (hwg : l.wg = 0) :
      Step l (.wait i) (l.move i .stopReset)
  | reset {i} (h : l.roles i = .stopReset) :
      Step l (.reset i) ({ l with isRunning := false }.move i .other)
  | cancel {ctx} :
      Step l (.cancel ctx) { l with cancelled := Function.update l.cancelled ctx true }
  | quit {i ctx} (h : l.roles i = .working (some ctx))
      (hquit : l.cancelled ctx = true ∨ l.stopClosed = true) :
      Step l (.quit i) (l.move i (.working none))
  | drained {i} (h : l.roles i = .working none) : Step l (.drained i) (l.move i .returning)
  | exit {i wg} (h : l.roles i = .returning) (hwg : l.wg = wg + 1) :
      Step l (.exit i) ({ l with wg := wg }.move i .other)
  | exitNegative {i} (h : l.roles i = .returning) (hwg : l.wg = 0) :
      Step l (.exit i) { l with panicked := true }

end Life

/-! ## The system refines its life -/

variable {T : Type}

namespace System

def life (s : System T) : Life where
  isRunning := s.isRunning
  stopClosed := s.stopClosed
  wg := s.wg
  cancelled := s.cancelled
  roles := fun i => (s.goroutines i).role
  panicked := s.panicked

theorem life_move (s : System T) (i : GoID) (g : Goroutine) :
    (s.move i g).life = s.life.move i g.role := by
  unfold life move Life.move
  congr 1
  funext j
  exact Function.apply_update (fun _ => Goroutine.role) s.goroutines i g j

theorem silent_move {s s₁ : System T} {e : Event} {i : GoID} {g g' : Goroutine}
    (he : e.isSilent = true) (hi : s.goroutines i = g) (hg : g'.role = g.role)
    (hs : s₁.life = s.life) : s.life.Step e (s₁.move i g').life := by
  rw [life_move, hs, Life.move_eq_self (hg.trans (congrArg Goroutine.role hi.symm))]
  exact .silent he

variable [OrderedTree T Decimal LevelRef] {s s' : System T} {e : Event}

theorem Step.life (h : s.Step e s') : s.life.Step e s'.life := by
  have hrole : ∀ {i g}, s.goroutines i = g → s.life.roles i = g.role := fun hi =>
    congrArg Goroutine.role hi
  cases h with
  | startRefused | stopRefused | isRunning | callRefused => exact .silent rfl
  | call hi | full hi | send hi | receive hi | take hi | takeLeft hi | process hi =>
      exact silent_move rfl hi rfl rfl
  | respond hi => exact silent_move rfl hi (Goroutine.resume_role _) rfl
  | cancel => exact .cancel
  | closeClosed hi hclosed => exact .closeClosed (hrole hi) hclosed
  | exitNegative hi hwg => exact .exitNegative (hrole hi) hwg
  | start hi hrun => rw [life_move]; exact .start (hrole hi) hrun
  | add hi => rw [life_move]; exact .add (hrole hi)
  | go hi hj => rw [life_move, life_move]; exact .go (hrole hi) (hrole hj)
  | stop hi hrun => rw [life_move]; exact .stop (hrole hi) hrun
  | close hi hopen => rw [life_move]; exact .close (hrole hi) hopen
  | wait hi hwg => rw [life_move]; exact .wait (hrole hi) hwg
  | reset hi => rw [life_move]; exact .reset (hrole hi)
  | quitCancelled hi hctx => rw [life_move]; exact .quit (hrole hi) (Or.inl hctx)
  | quitStopped hi hclosed => rw [life_move]; exact .quit (hrole hi) (Or.inr hclosed)
  | drained hi => rw [life_move]; exact .drained (hrole hi)
  | exit hi hwg => rw [life_move]; exact .exit (hrole hi) hwg

end System

/-! ## At most one worker -/

/-- The goroutine that is the worker after a step, if `w` was it before. -/
def Event.worker (w : GoID) : Event → GoID
  | .start i _ true => i
  | .go _ j => j
  | _ => w

theorem Event.worker_of_silent {e : Event} (h : e.isSilent = true) (w : GoID) :
    e.worker w = w := by
  cases e with
  | start i ctx passed => cases passed with
      | true => cases h
      | false => rfl
  | go => cases h
  | _ => rfl

namespace Life

variable {l l' : Life} {e : Event} {w k i : GoID} {r : Role}

/-- Only goroutine `w` is a worker or will make one, and the wait group
counts it. -/
structure OneWorker (l : Life) (w : GoID) : Prop where
  calm : l.panicked = false
  engaged : ∀ i, (l.roles i).isEngaged = true → i = w
  wg : l.wg = if (l.roles w).isCounted then 1 else 0

/-- `Start` is passed only when there is no worker and none under way,
and `stopChan` is not closed twice. -/
def Alone (l : Life) : Event → Prop
  | .start _ _ true => ∀ i, (l.roles i).isEngaged = false
  | .close _ => l.stopClosed = false
  | _ => True

theorem alone_of_silent (h : e.isSilent = true) : l.Alone e := by
  cases e with
  | start i ctx passed => cases passed with
      | true => cases h
      | false => trivial
  | close => cases h
  | _ => trivial

theorem OneWorker.wg_of_counted (h : l.OneWorker w) (hw : (l.roles w).isCounted = true) :
    l.wg = 1 := by
  rw [h.wg, if_pos hw]

theorem OneWorker.wg_of_not_counted (h : l.OneWorker w) (hw : (l.roles w).isCounted = false) :
    l.wg = 0 := by
  rw [h.wg, hw]
  rfl

theorem OneWorker.eq (h : l.OneWorker w) (hi : l.roles i = r) (hr : r.isEngaged = true) :
    i = w :=
  h.engaged i (hi ▸ hr)

theorem OneWorker.not_engaged (h : l.OneWorker w) (hi : i ≠ w) :
    (l.roles i).isEngaged = false :=
  Bool.eq_false_iff.mpr fun hi' => hi (h.engaged i hi')

/-- A change of role that neither makes nor ends a worker. -/
theorem OneWorker.move (h : l.OneWorker w) (hi : r.isEngaged = (l.roles i).isEngaged)
    (hc : r.isCounted = (l.roles i).isCounted) : (l.move i r).OneWorker w := by
  refine ⟨h.calm, fun j hj => h.engaged j ?_, h.wg.trans ?_⟩
  · by_cases hji : j = i
    · subst hji
      rwa [move_roles_self, hi] at hj
    · rwa [move_roles_of_ne l r hji] at hj
  · by_cases hwi : w = i
    · subst hwi
      rw [move_roles_self, hc]
    · rw [move_roles_of_ne l r hwi]

/-- A goroutine becomes the worker, or what is left of it. -/
theorem oneWorker_move (hcalm : l.panicked = false)
    (hnone : ∀ j, j ≠ i → (l.roles j).isEngaged = false)
    (hwg : l.wg = if r.isCounted then 1 else 0) : (l.move i r).OneWorker i := by
  refine ⟨hcalm, fun j hj => ?_, ?_⟩
  · by_contra hji
    rw [move_roles_of_ne l r hji, hnone j hji] at hj
    cases hj
  · rw [move_roles_self]
    exact hwg

theorem OneWorker.step (h : l.OneWorker w) (hok : l.Alone e) (hstep : l.Step e l') :
    l'.OneWorker (e.worker w) := by
  have hothers := fun {j : GoID} (hj : j ≠ w) => h.not_engaged hj
  cases hstep with
  | silent he =>
      rw [Event.worker_of_silent he]
      exact h
  | start hi hrun =>
      have hw : (l.roles w).isCounted = false := by
        have hnone := hok w
        cases hr : l.roles w <;> rw [hr] at hnone <;> first | rfl | cases hnone
      exact oneWorker_move h.calm (fun j _ => hok j) (h.wg_of_not_counted hw)
  | add hi =>
      obtain rfl := h.eq hi rfl
      refine oneWorker_move h.calm (fun j hj => hothers hj) (congrArg (· + 1) ?_)
      exact h.wg_of_not_counted (by rw [hi]; rfl)
  | @go i j ctx hi hj =>
      obtain rfl := h.eq hi rfl
      refine oneWorker_move h.calm (fun k _ => ?_) (h.wg_of_counted (by rw [hi]; rfl))
      by_cases hk : k = i
      · rw [hk, move_roles_self]
        rfl
      · rw [move_roles_of_ne l _ hk]
        exact hothers hk
  | stop hi => exact h.move (by rw [hi]; rfl) (by rw [hi]; rfl)
  | close hi => exact OneWorker.move ⟨h.calm, h.engaged, h.wg⟩ (by rw [hi]; rfl) (by rw [hi]; rfl)
  | closeClosed hi hclosed =>
      rw [Alone, hclosed] at hok
      cases hok
  | wait hi => exact h.move (by rw [hi]; rfl) (by rw [hi]; rfl)
  | reset hi => exact OneWorker.move ⟨h.calm, h.engaged, h.wg⟩ (by rw [hi]; rfl) (by rw [hi]; rfl)
  | cancel => exact ⟨h.calm, h.engaged, h.wg⟩
  | quit hi => exact h.move (by rw [hi]; rfl) (by rw [hi]; rfl)
  | drained hi => exact h.move (by rw [hi]; rfl) (by rw [hi]; rfl)
  | @exit i wg hi hwg =>
      obtain rfl := h.eq hi rfl
      refine oneWorker_move h.calm (fun j hj => hothers hj) ?_
      have hone := h.wg_of_counted (by rw [hi]; rfl)
      show wg = 0
      omega
  | exitNegative hi hwg =>
      obtain rfl := h.eq hi rfl
      have hone := h.wg_of_counted (by rw [hi]; rfl)
      omega

/-! ## Orderly calls -/

/-- `Start` is passed with a live context and before any `Stop`, `Stop`
is passed once, the context of the worker is not cancelled, and
`IsRunning` is not asked in the middle of a `Start` or a `Stop`. -/
def Orderly (l : Life) : Event → Prop
  | .start _ ctx true =>
      l.stopClosed = false ∧ (∀ i, (l.roles i).inStop = false) ∧ l.cancelled ctx = false
  | .stop _ true => l.stopClosed = false ∧ ∀ i, (l.roles i).inStop = false
  | .cancel ctx => ∀ i, (l.roles i).ctx? ≠ some ctx
  | .isRunning true => ∀ i, (l.roles i).inStart = false ∧ (l.roles i).inStop = false
  | _ => True

/-- Goroutine `k` is the only one in `Stop`. While nobody is, a running
engine has a worker, or a `Start` call on its way to make one, that has
not been told to leave. -/
structure Steady (l : Life) (w k : GoID) : Prop extends l.OneWorker w where
  stopping : ∀ i, (l.roles i).inStop = true →
    i = k ∧ (l.stopClosed = false ↔ l.roles i = .stopClose)
  fresh : l.isRunning = false → l.stopClosed = false → (l.roles w).isEngaged = false
  serving : l.isRunning = true → (∀ i, (l.roles i).inStop = false) →
    l.stopClosed = false ∧ (l.roles w).ctx?.isSome = true
  live : ∀ ctx, (l.roles w).ctx? = some ctx → l.cancelled ctx = false

theorem Steady.alone (h : l.Steady w k) (hok : l.Orderly e) (hstep : l.Step e l') : l.Alone e := by
  cases hstep with
  | silent he => exact alone_of_silent he
  | start hi hrun =>
      intro i
      by_cases hiw : i = w
      · rw [hiw]
        exact h.fresh hrun hok.1
      · exact h.not_engaged hiw
  | close hi hopen => exact hopen
  | closeClosed hi hclosed => exact (h.stopping _ (by rw [hi]; rfl)).2.mpr hi
  | _ => trivial

/-- A step of the worker, which touches neither the flags nor a `Stop`. -/
theorem Steady.working {w' : GoID} (h : l.Steady w k) (hone : l'.OneWorker w')
    (hflags : l'.isRunning = l.isRunning ∧ l'.stopClosed = l.stopClosed
      ∧ l'.cancelled = l.cancelled)
    (hstop : ∀ i, (l'.roles i).inStop = true ∨ (l.roles i).inStop = true →
      l'.roles i = l.roles i)
    (hw : (l.roles w).isEngaged = true)
    (hctx : ∀ ctx, (l'.roles w').ctx? = some ctx → (l.roles w).ctx? = some ctx)
    (hstay : l.stopClosed = false → (l.roles w).ctx?.isSome = true →
      (l'.roles w').ctx?.isSome = true) : l'.Steady w' k := by
  obtain ⟨hrun, hclosed, hcancel⟩ := hflags
  refine ⟨hone, ?_, ?_, ?_, ?_⟩
  · intro i hi
    have heq := hstop i (Or.inl hi)
    rw [hclosed, heq]
    exact h.stopping i (heq ▸ hi)
  · intro hrun' hopen
    rw [h.fresh (hrun ▸ hrun') (hclosed ▸ hopen)] at hw
    cases hw
  · intro hrun' hnone
    have hnone' : ∀ i, (l.roles i).inStop = false := by
      intro i
      by_contra hi
      have heq := hstop i (Or.inr (Bool.of_not_eq_false hi))
      exact hi (heq ▸ hnone i)
    obtain ⟨hopen, hsome⟩ := h.serving (hrun ▸ hrun') hnone'
    exact ⟨hclosed.trans hopen, hstay hopen hsome⟩
  · intro ctx hsome
    rw [hcancel]
    exact h.live ctx (hctx ctx hsome)

theorem Steady.move_worker {wg : Nat} (h : l.Steady w k) (hi : l.roles i = r)
    (hr : r.isEngaged = true) {r' : Role} (hr' : r'.inStop = false)
    (hone : ({ l with wg := wg }.move i r').OneWorker i)
    (hctx : ∀ ctx, r'.ctx? = some ctx → r.ctx? = some ctx)
    (hstay : l.stopClosed = false → r.ctx?.isSome = true → r'.ctx?.isSome = true) :
    ({ l with wg := wg }.move i r').Steady i k := by
  obtain rfl := h.eq hi hr
  have hself := move_roles_self { l with wg := wg } i r'
  refine h.working hone ⟨rfl, rfl, rfl⟩ ?_ (hi ▸ hr) (by rwa [hself, hi]) (by rwa [hself, hi])
  intro j hj
  refine move_roles_of_ne _ r' ?_
  rintro rfl
  rw [hself, hi, hr', Role.inStop_of_engaged hr] at hj
  exact hj.elim nofun nofun

/-- A goroutine without a context takes or leaves a role in `Stop`. -/
theorem Steady.live_move (h : l.Steady w k) (hr : r.ctx? = none) :
    ∀ ctx, ((l.move i r).roles w).ctx? = some ctx → l.cancelled ctx = false := by
  intro ctx hctx
  by_cases hwi : w = i
  · rw [hwi, move_roles_self, hr] at hctx
    cases hctx
  · rw [move_roles_of_ne l r hwi] at hctx
    exact h.live ctx hctx

theorem Steady.not_inStop (h : l.Steady w k) (hi : l.roles i = r) (hr : r.inStop = true)
    {j : GoID} (hj : j ≠ i) : (l.roles j).inStop = false := by
  refine Bool.eq_false_iff.mpr fun hstop => hj ?_
  exact (h.stopping j hstop).1.trans (h.stopping i (hi ▸ hr)).1.symm

/-- Only the goroutine that moved can be in `Stop` if no other one was. -/
theorem eq_of_inStop (h : ∀ j, j ≠ i → (l.roles j).inStop = false) {j : GoID}
    (hj : ((l.move i r).roles j).inStop = true) : j = i ∧ r.inStop = true := by
  by_cases hji : j = i
  · subst hji
    rw [move_roles_self] at hj
    exact ⟨rfl, hj⟩
  · rw [move_roles_of_ne l r hji, h j hji] at hj
    cases hj

/-- A goroutine takes a role in `Stop`, where no other one is. -/
theorem Steady.move_stop {closed : Bool} (h : l.Steady w k)
    (hothers : ∀ j, j ≠ i → (l.roles j).inStop = false) (hr : r.inStop = true)
    (hr' : r.ctx? = none) (hclosed : closed = false ↔ r = .stopClose)
    (hrun : closed = false → l.isRunning = true)
    (hone : ({ l with stopClosed := closed }.move i r).OneWorker w) :
    ({ l with stopClosed := closed }.move i r).Steady w i := by
  have hself := move_roles_self { l with stopClosed := closed } i r
  refine ⟨hone, fun j hj => ?_, fun hrun' hopen => ?_, fun _ hnone => ?_, h.live_move hr'⟩
  · obtain ⟨rfl, -⟩ := eq_of_inStop hothers hj
    rw [hself]
    exact ⟨rfl, hclosed⟩
  · cases (hrun hopen).symm.trans hrun'
  · have hnot := hnone i
    rw [hself, hr] at hnot
    cases hnot

theorem Steady.step (h : l.Steady w k) (hok : l.Orderly e) (hstep : l.Step e l') :
    ∃ k', l'.Steady (e.worker w) k' := by
  have hone := h.toOneWorker.step (h.alone hok hstep) hstep
  cases hstep with
  | silent he =>
      rw [Event.worker_of_silent he]
      exact ⟨k, h⟩
  | @start i ctx hi hrun =>
      obtain ⟨hopen, hnone, hlive⟩ := hok
      refine ⟨k, hone, fun j hj => ?_, nofun, fun _ _ => ⟨hopen, ?_⟩, fun ctx' hctx => ?_⟩
      · cases (eq_of_inStop (fun j _ => hnone j) hj).2
      · rw [Event.worker, move_roles_self]
        rfl
      · rw [Event.worker, move_roles_self] at hctx
        cases hctx
        exact hlive
  | add hi =>
      obtain rfl := h.eq hi rfl
      exact ⟨k, h.move_worker hi rfl rfl hone (fun _ hctx => hctx) fun _ hsome => hsome⟩
  | @go i j ctx hi hj =>
      obtain rfl := h.eq hi rfl
      have hself := move_roles_self (l.move i .other) j (.working (some ctx))
      refine ⟨k, h.working hone ⟨rfl, rfl, rfl⟩ ?_ (by rw [hi]; rfl) ?_ ?_⟩
      · intro x hx
        by_cases hxj : x = j
        · rw [hxj, hself, hj] at hx
          exact hx.elim nofun nofun
        · rw [move_roles_of_ne _ _ hxj] at hx ⊢
          refine move_roles_of_ne _ _ ?_
          rintro rfl
          rw [move_roles_self, hi] at hx
          exact hx.elim nofun nofun
      · rw [Event.worker, hself, hi]
        exact fun _ hctx => hctx
      · rw [Event.worker, hself]
        exact fun _ _ => rfl
  | stop hi hrun =>
      obtain ⟨hopen, hnone⟩ := hok
      exact ⟨_, h.move_stop (fun j _ => hnone j) rfl rfl (iff_of_true hopen rfl) (fun _ => hrun)
        hone⟩
  | close hi hopen =>
      exact ⟨_, h.move_stop (fun j hj => h.not_inStop hi rfl hj) rfl rfl (iff_of_false nofun nofun)
        nofun hone⟩
  | closeClosed hi hclosed =>
      cases (h.alone hok (.closeClosed hi hclosed)).symm.trans hclosed
  | @wait i hi hwg =>
      have hclosed := (h.stopping i (by rw [hi]; rfl)).2
      rw [hi] at hclosed
      have hopen : ¬l.stopClosed = false := fun hopen => nomatch hclosed.mp hopen
      exact ⟨_, h.move_stop (fun j hj => h.not_inStop hi rfl hj) rfl rfl (iff_of_false hopen nofun)
        (fun hopen' => absurd hopen' hopen) hone⟩
  | @reset i hi =>
      have hclosed := (h.stopping i (by rw [hi]; rfl)).2
      rw [hi] at hclosed
      refine ⟨k, hone, fun j hj => ?_, fun _ hopen => ?_, nofun, h.live_move rfl⟩
      · cases (eq_of_inStop (fun j hj => h.not_inStop hi rfl hj) hj).2
      · cases hclosed.mp hopen
  | @cancel ctx =>
      refine ⟨k, hone, h.stopping, h.fresh, h.serving, fun ctx' hctx => ?_⟩
      have hne : ctx' ≠ ctx := fun heq => hok w (heq ▸ hctx)
      exact (Function.update_of_ne hne ..).trans (h.live ctx' hctx)
  | @quit i ctx hi hquit =>
      obtain rfl := h.eq hi rfl
      refine ⟨k, h.move_worker hi rfl rfl hone nofun fun hopen _ => ?_⟩
      have hlive := h.live ctx (by rw [hi]; rfl)
      rcases hquit with hcancel | hclosed
      · cases hlive.symm.trans hcancel
      · cases hopen.symm.trans hclosed
  | drained hi =>
      obtain rfl := h.eq hi rfl
      exact ⟨k, h.move_worker hi rfl rfl hone nofun nofun⟩
  | exit hi hwg =>
      obtain rfl := h.eq hi rfl
      exact ⟨k, h.move_worker hi rfl rfl hone nofun nofun⟩
  | exitNegative hi hwg =>
      obtain rfl := h.eq hi rfl
      cases hone.calm

end Life

namespace System

variable [OrderedTree T Decimal LevelRef] {s s' : System T} {es : List Event}

theorem Step.isRunning_eq {result : Bool} (h : s.Step (.isRunning result) s') :
    s.isRunning = result := by
  cases h
  rfl

theorem newSystem_steady (instrument : String) :
    (newSystem instrument : System T).life.Steady 0 0 :=
  ⟨⟨rfl, nofun, rfl⟩, nofun, fun _ _ => rfl, nofun, nofun⟩

theorem steady {instrument : String}
    (h : Trace (Where Next fun s e => s.life.Orderly e) (newSystem instrument) es s) :
    ∃ w k, s.life.Steady w k := by
  refine h.invariant (P := fun _ s => ∃ w k, s.life.Steady w k)
    ⟨0, 0, newSystem_steady instrument⟩ ?_
  rintro es s e s' ⟨w, k, hs⟩ ⟨hok, -, hstep⟩
  exact ⟨_, hs.step hok hstep.life⟩

end System

/-- In a run of orderly calls nothing panics, and whenever `IsRunning`
says so there is a worker in its loop, with a context that has not
ended. -/
theorem start_stop_orderly [OrderedTree T Decimal LevelRef] {instrument : String}
    {es : List Event} {s : System T}
    (h : Trace (Where System.Next fun s e => s.life.Orderly e) (newSystem instrument) es s) :
    s.panicked = false
    ∧ ∀ s', Where System.Next (fun s e => s.life.Orderly e) s (.isRunning true) s' →
        ∃ i ctx, (s.goroutines i).role = .working (some ctx) ∧ s.cancelled ctx = false := by
  obtain ⟨w, k, hs⟩ := System.steady h
  refine ⟨hs.calm, ?_⟩
  rintro s' ⟨hok, -, hstep⟩
  have hrun := hstep.isRunning_eq
  obtain ⟨-, hsome⟩ := hs.serving hrun fun i => (hok i).2
  obtain ⟨ctx, hctx⟩ := Option.isSome_iff_exists.mp hsome
  refine ⟨w, ctx, ?_, hs.live ctx hctx⟩
  have hstart := (hok w).1
  cases hr : s.life.roles w <;> rw [hr] at hctx hstart <;> cases hctx <;>
    first | exact hr | cases hstart

theorem start_stop_orderly_started :
    ∃ s : System (SortedItems Decimal LevelRef),
      Trace (Where System.Next fun s e => s.life.Orderly e) (newSystem "BTC-USD")
        [.start 0 0 true, .add 0, .go 0 1] s
      ∧ s.isRunning = true
      ∧ ∃ i ctx, (s.goroutines i).role = .working (some ctx) ∧ s.cancelled ctx = false := by
  have h₀ : Trace (Where System.Next fun s e => s.life.Orderly e)
      (newSystem "BTC-USD" : System (SortedItems Decimal LevelRef)) [] _ := .nil
  have h := h₀.next (.start 0 0 true) ⟨⟨rfl, fun _ => rfl, rfl⟩, rfl, .start rfl rfl⟩
    |>.next (.add 0) ⟨trivial, rfl, .add rfl⟩
    |>.next (.go 0 1) ⟨trivial, rfl, .go rfl rfl⟩
  refine ⟨_, h, rfl, (start_stop_orderly h).2 _ ⟨fun i => ?_, rfl, .isRunning⟩⟩
  match i with
  | 0 | 1 | n + 2 => exact ⟨rfl, rfl⟩

def startAndStop : List Event :=
  [.start 0 0 true, .add 0, .go 0 1, .stop 0 true, .close 0, .quit 1, .drained 1, .exit 1, .wait 0,
    .reset 0]

/-- After `Start`, `Stop` and `Start` the new worker leaves at once while
the engine counts as running, and the next `Stop` panics. -/
theorem restart_panics :
    (∃ s : System (SortedItems Decimal LevelRef),
      Trace System.Next (newSystem "BTC-USD")
        (startAndStop ++ [.start 0 0 true, .add 0, .go 0 1, .quit 1, .drained 1, .exit 1]) s
      ∧ s.isRunning = true ∧ ∀ i, s.goroutines i = .idle)
    ∧ ∃ s : System (SortedItems Decimal LevelRef),
      Trace System.Next (newSystem "BTC-USD")
        (startAndStop ++ [.start 0 0 true, .add 0, .go 0 1, .stop 0 true, .close 0]) s
      ∧ s.panicked = true := by
  have h₀ : Trace System.Next (newSystem "BTC-USD" : System (SortedItems Decimal LevelRef)) [] _ :=
    .nil
  have h := h₀.next (.start 0 0 true) ⟨rfl, .start rfl rfl⟩
      |>.next (.add 0) ⟨rfl, .add rfl⟩
      |>.next (.go 0 1) ⟨rfl, .go rfl rfl⟩
      |>.next (.stop 0 true) ⟨rfl, .stop rfl rfl⟩
      |>.next (.close 0) ⟨rfl, .close rfl rfl⟩
      |>.next (.quit 1) ⟨rfl, .quitStopped rfl rfl⟩
      |>.next (.drained 1) ⟨rfl, .drained rfl rfl⟩
      |>.next (.exit 1) ⟨rfl, .exit rfl rfl⟩
      |>.next (.wait 0) ⟨rfl, .wait rfl rfl⟩
      |>.next (.reset 0) ⟨rfl, .reset rfl⟩
  have hagain := h.next (.start 0 0 true) ⟨rfl, .start rfl rfl⟩
      |>.next (.add 0) ⟨rfl, .add rfl⟩
      |>.next (.go 0 1) ⟨rfl, .go rfl rfl⟩
  have hleft := hagain.next (.quit 1) ⟨rfl, .quitStopped rfl rfl⟩
      |>.next (.drained 1) ⟨rfl, .drained rfl rfl⟩
      |>.next (.exit 1) ⟨rfl, .exit rfl rfl⟩
  have hpanic := hagain.next (.stop 0 true) ⟨rfl, .stop rfl rfl⟩
      |>.next (.close 0) ⟨rfl, .closeClosed rfl rfl⟩
  refine ⟨⟨_, hleft, rfl, fun i => ?_⟩, _, hpanic, rfl⟩
  match i with
  | 0 | 1 | n + 2 => rfl

end TradingBackend
