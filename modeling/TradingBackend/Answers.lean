import TradingBackend.StartStop

/-!
# Every command is answered

What happens to a command after it was put on `commandChan`: the worker
takes it, matches it and sends the response, the client receives it. Five
kinds of steps do that (`Event.isData`); all others are `Quiet` about it.

As long as there is no second worker, the commands that were sent are those
that were answered, then the one in the worker's hands, then those in the
channel (`Serial`), and every answer is with its client or in the channel
the client waits on (`Delivering`). If commands are also sent only while a
worker will look into the channel again, or is being started (`Attended`),
the worker does not leave commands behind (`Answering`). A command that
comes after the worker found the channel empty stays in it, and its client
waits forever.
-/

namespace TradingBackend

/-! ## What a trace says about commands -/

def Event.sent? : Event → Option PostedCommand
  | .send _ cmd => some cmd
  | _ => none

def Event.answered? : Event → Option (PostedCommand × CommandResponse)
  | .respond _ cmd response => some (cmd, response)
  | _ => none

/-- The response channel on which a client gets its answer, and the
answer. -/
def Event.received? : Event → Option (ChanRef × CommandResponse)
  | .receive _ response result => some (response, result)
  | _ => none

/-- The steps a command goes through. -/
def Event.isData : Event → Bool
  | .send .. | .take .. | .process .. | .respond .. | .receive .. => true
  | _ => false

def Event.isWork : Event → Bool
  | .take .. | .process .. | .respond .. => true
  | _ => false

def sent (es : List Event) : List PostedCommand := es.filterMap Event.sent?

def answered (es : List Event) : List (PostedCommand × CommandResponse) :=
  es.filterMap Event.answered?

def received (es : List Event) : List (ChanRef × CommandResponse) := es.filterMap Event.received?

/-- The command in the hands of a worker, with its answer if there is one
already. -/
def Goroutine.job : Goroutine → Option (PostedCommand × Option CommandResponse)
  | processing _ cmd => some (cmd, none)
  | responding _ cmd response => some (cmd, some response)
  | _ => none

def Goroutine.inHand (g : Goroutine) : List PostedCommand := (g.job.map Prod.fst).toList

def Goroutine.matched (g : Goroutine) : List (PostedCommand × CommandResponse) :=
  match g.job with
  | some (cmd, some response) => [(cmd, response)]
  | _ => []

/-- The steps left to answer the command in hand. -/
def Goroutine.stage (g : Goroutine) : Nat :=
  match g.job with
  | some (_, none) => 2
  | some (_, some _) => 1
  | none => 0

def Goroutine.awaits : Goroutine → Option ChanRef
  | waiting response => some response
  | _ => none

/-- A worker that will look into the channel again before it returns. -/
def Role.isWorking : Role → Bool
  | working _ => true
  | _ => false

/-- The same, or a `Start` call that will make such a worker. -/
def Role.attends : Role → Bool
  | startAdd _ | startGo _ | working _ => true
  | _ => false

theorem Goroutine.resume_job (ctx : Option Ctx) : (resume ctx).job = none := by
  cases ctx <;> rfl

theorem Role.engaged_of_attends {r : Role} (h : r.attends = true) : r.isEngaged = true := by
  cases r <;> first | rfl | cases h

theorem Role.attends_of_working {r : Role} (h : r.isWorking = true) : r.attends = true := by
  cases r <;> first | rfl | cases h

theorem Goroutine.attends_of_job {g : Goroutine} (h : g.job ≠ none) :
    g.role.attends = true := by
  cases g <;> first | rfl | exact absurd rfl h

theorem Goroutine.engaged_of_job {g : Goroutine} (h : g.job ≠ none) :
    g.role.isEngaged = true :=
  Role.engaged_of_attends (attends_of_job h)

theorem Goroutine.inHand_eq_nil {g : Goroutine} : g.inHand = [] ↔ g.job = none := by
  rw [inHand, Option.toList_eq_nil_iff, Option.map_eq_none_iff]

theorem Goroutine.eq_waiting {g : Goroutine} {c : ChanRef} (h : g.awaits = some c) :
    g = .waiting c := by
  cases g <;> cases h
  rfl

/-- A step that has nothing to do with commands. -/
structure System.Quiet {T : Type} (s : System T) (e : Event) (s' : System T) : Prop where
  sent : e.sent? = none
  answered : e.answered? = none
  received : e.received? = none
  engine : s'.engine = s.engine
  commandChan : s'.commandChan = s.commandChan
  responses : s'.responses = s.responses
  nextChan : s'.nextChan = s.nextChan
  job : ∀ i, (s'.goroutines i).job = (s.goroutines i).job
  awaits : ∀ i, (s'.goroutines i).awaits = (s.goroutines i).awaits

variable {T : Type}

namespace System

theorem move_self (s : System T) (i : GoID) (g : Goroutine) : (s.move i g).goroutines i = g :=
  Function.update_self ..

theorem move_of_ne (s : System T) {i j : GoID} (g : Goroutine) (h : j ≠ i) :
    (s.move i g).goroutines j = s.goroutines j :=
  Function.update_of_ne h ..

/-- A property of a goroutine that a move does not change. -/
theorem move_same {β : Type} (f : Goroutine → β) {s : System T} {i : GoID} {g : Goroutine}
    (hi : s.goroutines i = g) (g' : Goroutine) (hf : f g' = f g) (j : GoID) :
    f ((s.move i g').goroutines j) = f (s.goroutines j) := by
  by_cases hj : j = i
  · rw [hj, move_self, hi, hf]
  · rw [move_of_ne s g' hj]

theorem Quiet.move {s s₁ : System T} {e : Event} {i : GoID} {g g' : Goroutine}
    (h : s.Quiet e s₁) (hi : s₁.goroutines i = g) (hjob : g'.job = g.job)
    (hawaits : g'.awaits = g.awaits) : s.Quiet e (s₁.move i g') :=
  { h with
    job := fun j => (move_same Goroutine.job hi g' hjob j).trans (h.job j)
    awaits := fun j => (move_same Goroutine.awaits hi g' hawaits j).trans (h.awaits j) }

theorem quiet_flags {s s' : System T} {e : Event} (he : e.isData = false)
    (hs : s' = { s with
      isRunning := s'.isRunning
      stopClosed := s'.stopClosed
      wg := s'.wg
      cancelled := s'.cancelled
      panicked := s'.panicked }) : s.Quiet e s' := by
  rw [hs]
  cases e <;> first
    | exact ⟨rfl, rfl, rfl, rfl, rfl, rfl, rfl, fun _ => rfl, fun _ => rfl⟩
    | cases he

theorem Step.quiet [OrderedTree T Decimal LevelRef] {s s' : System T} {e : Event}
    (h : s.Step e s') (he : e.isData = false) : s.Quiet e s' := by
  cases h with
  | send | receive | take | takeLeft | process | respond => cases he
  | startRefused | stopRefused | isRunning | callRefused | cancel | closeClosed | exitNegative =>
      exact quiet_flags he rfl
  | start hi | add hi | stop hi | close hi | wait hi | reset hi | call hi | full hi
  | quitCancelled hi | quitStopped hi | drained hi | exit hi =>
      exact (quiet_flags he rfl).move hi rfl rfl
  | @go i j ctx hi hj =>
      have hne : j ≠ i := by
        rintro rfl
        cases hi.symm.trans hj
      have hleft : s.Quiet (.go i j) (s.move i .idle) := (quiet_flags he rfl).move hi rfl rfl
      rw [← move_of_ne s .idle hne] at hj
      exact hleft.move hj rfl rfl

end System

/-! ## The commands in order -/

/-- The engine handles commands one after the other, with these
responses. -/
inductive Replies [OrderedTree T Decimal LevelRef] (me₀ : MatchingEngine T) :
    List (PostedCommand × CommandResponse) → MatchingEngine T → Prop where
  | nil : Replies me₀ [] me₀
  | snoc {done me cmd fuel me' response} (h : Replies me₀ done me)
      (hstep : me.handle fuel cmd.request = some (me', response)) :
      Replies me₀ (done ++ [(cmd, response)]) me'

theorem Replies.run [OrderedTree T Decimal LevelRef] {me₀ me : MatchingEngine T}
    {done : List (PostedCommand × CommandResponse)} (h : Replies me₀ done me) :
    ∃ trades, MatchingEngine.Run me₀ (done.map fun d => d.1.request) me trades := by
  induction h with
  | nil => exact ⟨[], .nil⟩
  | snoc _ hstep ih =>
      obtain ⟨trades, hrun⟩ := ih
      rw [List.map_append]
      exact ⟨_, hrun.snoc hstep⟩

namespace System

/-- Commands are sent only while a worker will look into the channel
again or is being started, there is no second worker, and `stopChan` is
not closed twice. -/
def Attended (s : System T) : Event → Prop
  | .send _ _ => ∃ i, (s.life.roles i).attends = true
  | e => s.life.Alone e

theorem Attended.alone {s : System T} {e : Event} (h : s.Attended e) : s.life.Alone e := by
  cases e with
  | send => trivial
  | _ => exact h

/-- The commands in the order of the channel, answered one by one. It takes one
worker at a time for this; that it will look into the channel again is what
`Answering` adds. -/
structure Serial [OrderedTree T Decimal LevelRef] (me₀ : MatchingEngine T)
    (posted : List PostedCommand) (answers : List (PostedCommand × CommandResponse))
    (s : System T) (w : GoID) : Prop where
  one : s.life.OneWorker w
  channels : posted.map PostedCommand.response = List.range s.nextChan
  order : posted = answers.map Prod.fst ++ (s.goroutines w).inHand ++ s.commandChan
  replies : Replies me₀ (answers ++ (s.goroutines w).matched) s.engine

/-- The commands that were sent are those that were answered, then the
one the worker has, then those in the channel; they have different
response channels, and the engine is where it gets by handling them one
by one. -/
structure Answering [OrderedTree T Decimal LevelRef] (me₀ : MatchingEngine T)
    (posted : List PostedCommand) (answers : List (PostedCommand × CommandResponse))
    (s : System T) (w : GoID) : Prop where
  one : s.life.OneWorker w
  channels : posted.map PostedCommand.response = List.range s.nextChan
  order : posted = answers.map Prod.fst ++ (s.goroutines w).inHand ++ s.commandChan
  attended : s.commandChan ≠ [] → (s.life.roles w).attends = true
  serial : Replies me₀ (answers ++ (s.goroutines w).matched) s.engine

theorem job_worker {s s' : System T} {w w' : GoID} (h : s.life.OneWorker w)
    (h' : s'.life.OneWorker w')
    (hjob : ∀ i, (s'.goroutines i).job = (s.goroutines i).job) :
    (s'.goroutines w').job = (s.goroutines w).job := by
  by_cases hw : (s.goroutines w).job = none
  · by_contra hne
    rw [hw, hjob w'] at hne
    have heq := h.engaged w' (Goroutine.engaged_of_job hne)
    exact hne (heq ▸ hw)
  · have heq := h'.engaged w (Goroutine.engaged_of_job (hjob w ▸ hw))
    rw [← heq, hjob]

end System

namespace Life

variable {l l' : Life} {e : Event} {w i : GoID}

/-- Nobody takes another goroutine out of its loop. -/
theorem attends_move {r r' : Role} (hi : l.roles i = r)
    (hr : r.attends = true → r'.attends = true) (hw : (l.roles w).attends = true) :
    ((l.move i r').roles w).attends = true := by
  by_cases hwi : w = i
  · subst hwi
    rw [move_roles_self]
    exact hr (hi ▸ hw)
  · rwa [move_roles_of_ne l r' hwi]

/-- The channel is attended to until the worker finds it empty. -/
theorem Step.attends (h : l.Step e l') (hw : (l.roles w).attends = true) :
    (l'.roles (e.worker w)).attends = true ∨ e = .drained w := by
  cases h with
  | silent he =>
      rw [Event.worker_of_silent he]
      exact Or.inl hw
  | cancel | closeClosed | exitNegative => exact Or.inl hw
  | start | go =>
      left
      rw [Event.worker, move_roles_self]
      rfl
  | stop hi | close hi | wait hi | reset hi | exit hi =>
      refine Or.inl (attends_move hi (fun hr => ?_) hw)
      cases hr
  | add hi | quit hi => exact Or.inl (attends_move hi (fun _ => rfl) hw)
  | @drained i hi =>
      by_cases hwi : w = i
      · exact Or.inr (by rw [hwi])
      · left
        show ((l.move i .returning).roles w).attends = true
        rwa [move_roles_of_ne l _ hwi]

theorem Step.eq_of_silent (h : l.Step e l') (he : e.isSilent = true) : l' = l := by
  cases h with
  | silent => rfl
  | _ => cases he

end Life

namespace System

section

variable [OrderedTree T Decimal LevelRef] {me₀ : MatchingEngine T} {s s' : System T} {e : Event}
  {posted : List PostedCommand} {answers : List (PostedCommand × CommandResponse)} {w w' : GoID}

theorem Serial.same (h : Serial me₀ posted answers s w) (hone : s'.life.OneWorker w')
    (hengine : s'.engine = s.engine) (hchan : s'.commandChan = s.commandChan)
    (hnext : s'.nextChan = s.nextChan)
    (hjob : ∀ i, (s'.goroutines i).job = (s.goroutines i).job) :
    Serial me₀ posted answers s' w' := by
  have hjob := job_worker h.one hone hjob
  refine ⟨hone, hnext ▸ h.channels, ?_, ?_⟩
  · rw [hchan, Goroutine.inHand, hjob]
    exact h.order
  · rw [hengine, Goroutine.matched, hjob]
    exact h.replies

theorem Serial.send (h : Serial me₀ posted answers s w) {i : GoID} {request : Request}
    (hi : s.goroutines i = .sending request)
    (hone : s'.life.OneWorker w)
    (hs : s' = { s with
        commandChan := s.commandChan ++ [PostedCommand.mk request s.nextChan]
        nextChan := s.nextChan + 1 }.move i (.waiting s.nextChan)) :
    Serial me₀ (posted ++ [⟨request, s.nextChan⟩]) answers s' w := by
  have hjob : (s'.goroutines w).job = (s.goroutines w).job := by
    rw [hs]
    exact move_same Goroutine.job hi (.waiting s.nextChan) rfl w
  refine ⟨hone, ?_, ?_, ?_⟩
  · rw [List.map_append, h.channels, hs]
    exact List.range_succ.symm
  · rw [Goroutine.inHand, hjob, h.order, hs]
    exact List.append_assoc ..
  · rw [Goroutine.matched, hjob, hs]
    exact h.replies

theorem Serial.take (h : Serial me₀ posted answers s w) {ctx : Option Ctx} {cmd : PostedCommand}
    (hw : (s.goroutines w).job = none) (hself : s'.goroutines w = .processing ctx cmd)
    (hone : s'.life.OneWorker w) (hengine : s'.engine = s.engine)
    (hchan : s.commandChan = cmd :: s'.commandChan) (hnext : s'.nextChan = s.nextChan) :
    Serial me₀ posted answers s' w := by
  have hreplies := h.replies
  rw [Goroutine.matched, hw] at hreplies
  refine ⟨hone, hnext ▸ h.channels, ?_, ?_⟩
  · rw [hself, h.order, hchan, Goroutine.inHand, hw]
    exact (List.append_assoc (answers.map Prod.fst ++ []) [cmd] s'.commandChan).symm.trans
      (by rw [List.append_nil]; rfl)
  · rw [hself, hengine]
    exact hreplies

theorem Serial.process (h : Serial me₀ posted answers s w) {ctx : Option Ctx}
    {cmd : PostedCommand} {fuel : Nat} {response : CommandResponse}
    (hw : s.goroutines w = .processing ctx cmd)
    (hself : s'.goroutines w = .responding ctx cmd response) (hone : s'.life.OneWorker w)
    (hhandle : s.engine.handle fuel cmd.request = some (s'.engine, response))
    (hchan : s'.commandChan = s.commandChan) (hnext : s'.nextChan = s.nextChan) :
    Serial me₀ posted answers s' w := by
  have hreplies := h.replies
  rw [hw, show (Goroutine.processing ctx cmd).matched = [] from rfl, List.append_nil] at hreplies
  refine ⟨hone, hnext ▸ h.channels, ?_, ?_⟩
  · rw [hself, hchan, h.order, hw]
    rfl
  · rw [hself]
    exact hreplies.snoc hhandle

theorem Serial.respond (h : Serial me₀ posted answers s w) {ctx : Option Ctx}
    {cmd : PostedCommand} {response : CommandResponse}
    (hw : s.goroutines w = .responding ctx cmd response)
    (hself : s'.goroutines w = .resume ctx) (hone : s'.life.OneWorker w)
    (hengine : s'.engine = s.engine) (hchan : s'.commandChan = s.commandChan)
    (hnext : s'.nextChan = s.nextChan) :
    Serial me₀ posted (answers ++ [(cmd, response)]) s' w := by
  have hjob := Goroutine.resume_job ctx
  have hreplies := h.replies
  rw [hw] at hreplies
  refine ⟨hone, hnext ▸ h.channels, ?_, ?_⟩
  · rw [hself, h.order, hw, List.map_append, hchan, Goroutine.inHand, Goroutine.inHand, hjob]
    exact congrArg (· ++ _) (List.append_nil _).symm
  · rw [hself, hengine, Goroutine.matched, hjob, List.append_nil]
    exact hreplies

theorem Serial.step (h : Serial me₀ posted answers s w) (hok : s.life.Alone e)
    (hstep : s.Step e s') :
    Serial me₀ (posted ++ e.sent?.toList) (answers ++ e.answered?.toList) s' (e.worker w) := by
  have hone := h.one.step hok hstep.life
  cases he : e.isData with
  | false =>
      have hq := hstep.quiet he
      rw [hq.sent, hq.answered, Option.toList_none, List.append_nil, Option.toList_none,
        List.append_nil]
      exact h.same hone hq.engine hq.commandChan hq.nextChan hq.job
  | true =>
      have heq : ∀ {i g}, s.goroutines i = g → g.role.isEngaged = true → i = w := fun hi hg =>
        h.one.eq (congrArg Goroutine.role hi) hg
      cases hstep with
      | send hi =>
          simp only [Event.answered?, Option.toList_none, List.append_nil]
          exact h.send hi hone rfl
      | receive hi =>
          simp only [Event.sent?, Event.answered?, Option.toList_none, List.append_nil]
          exact h.same hone rfl rfl rfl (move_same Goroutine.job hi .idle rfl)
      | take hi hchan | takeLeft hi hchan =>
          obtain rfl := heq hi rfl
          simp only [Event.sent?, Event.answered?, Option.toList_none, List.append_nil]
          exact h.take (by rw [hi]; rfl) (move_self ..) hone rfl hchan rfl
      | process hi hhandle =>
          obtain rfl := heq hi rfl
          simp only [Event.sent?, Event.answered?, Option.toList_none, List.append_nil]
          exact h.process hi (move_self ..) hone hhandle rfl rfl
      | respond hi =>
          obtain rfl := heq hi rfl
          simp only [Event.sent?, Option.toList_none, List.append_nil]
          exact h.respond hi (move_self ..) hone rfl rfl rfl
      | _ => cases he

theorem Serial.posted_lt (h : Serial me₀ posted answers s w) {cmd : PostedCommand}
    (hcmd : cmd ∈ posted) : cmd.response < s.nextChan := by
  have hmem := List.mem_map_of_mem (f := PostedCommand.response) hcmd
  rw [h.channels] at hmem
  exact List.mem_range.mp hmem

theorem Serial.answer_posted (h : Serial me₀ posted answers s w)
    {d : PostedCommand × CommandResponse} (hd : d ∈ answers) : d.1 ∈ posted := by
  rw [h.order, List.append_assoc]
  exact List.mem_append_left _ (List.mem_map_of_mem hd)

theorem Serial.answer_lt (h : Serial me₀ posted answers s w)
    {d : PostedCommand × CommandResponse} (hd : d ∈ answers) : d.1.response < s.nextChan :=
  h.posted_lt (h.answer_posted hd)

/-- The command in the hands of the worker was sent and has not been
answered. -/
theorem Serial.inHand (h : Serial me₀ posted answers s w) {cmd : PostedCommand}
    (hhand : (s.goroutines w).inHand = [cmd]) :
    cmd ∈ posted ∧ ∀ d ∈ answers, d.1.response ≠ cmd.response := by
  have hnodup : (posted.map PostedCommand.response).Nodup := h.channels ▸ List.nodup_range
  rw [h.order, hhand] at hnodup ⊢
  rw [List.map_append, List.map_append] at hnodup
  have hdisjoint := (List.nodup_append.mp (List.nodup_append.mp hnodup).1).2.2
  refine ⟨List.mem_append_left _ (List.mem_append_right _ (List.mem_singleton_self _)), ?_⟩
  intro d hd
  refine hdisjoint _ ?_ _ (List.mem_singleton_self _)
  exact List.mem_map_of_mem (List.mem_map_of_mem hd)

theorem Answering.inTurn (h : Answering me₀ posted answers s w) : Serial me₀ posted answers s w :=
  ⟨h.one, h.channels, h.order, h.serial⟩

/-- The channel fills only while it is attended to, and the worker leaves it
only when it is empty. -/
theorem Answering.attends_step (h : Answering me₀ posted answers s w) (hok : s.Attended e)
    (hstep : s.Step e s') (hne : s'.commandChan ≠ []) :
    (s'.life.roles (e.worker w)).attends = true := by
  have hlife := hstep.life
  have hw : (s.life.roles w).attends = true := by
    by_cases hchan : s.commandChan = []
    · cases hstep with
      | send hi =>
          obtain ⟨j, hj⟩ := hok
          exact h.one.engaged j (Role.engaged_of_attends hj) ▸ hj
      | take hi hfirst | takeLeft hi hfirst => cases hchan.symm.trans hfirst
      | _ => exact absurd hchan hne
    · exact h.attended hchan
  rcases hlife.attends hw with hattends | rfl
  · exact hattends
  · cases hstep with
    | drained hi hchan => exact absurd hchan hne

theorem Answering.step (h : Answering me₀ posted answers s w) (hok : s.Attended e)
    (hstep : s.Step e s') :
    Answering me₀ (posted ++ e.sent?.toList) (answers ++ e.answered?.toList) s' (e.worker w) := by
  have hturn := h.inTurn.step hok.alone hstep
  exact ⟨hturn.one, hturn.channels, hturn.order, h.attends_step hok hstep, hturn.replies⟩

theorem Answering.channels_nodup (h : Answering me₀ posted answers s w) :
    (posted.map PostedCommand.response).Nodup := by
  rw [h.channels]
  exact List.nodup_range

theorem Answering.answer_unique (h : Answering me₀ posted answers s w) {cmd cmd' : PostedCommand}
    {r r' : CommandResponse} (hmem : (cmd, r) ∈ answers) (hmem' : (cmd', r') ∈ answers)
    (heq : cmd.response = cmd'.response) : r = r' := by
  have hnodup := h.channels_nodup
  rw [h.order, List.append_assoc, List.map_append, List.map_map] at hnodup
  exact congrArg Prod.snd (List.inj_on_of_nodup_map hnodup.of_append_left hmem hmem' heq)

/-- Once the worker has left its loop, everything is answered. -/
theorem Answering.all_answered (h : Answering me₀ posted answers s w)
    (hnone : ∀ i, (s.goroutines i).role.attends = false) :
    s.commandChan = [] ∧ posted = answers.map Prod.fst := by
  have hchan : s.commandChan = [] := by
    by_contra hne
    cases (hnone w).symm.trans (h.attended hne)
  have hjob : (s.goroutines w).job = none := by
    by_contra hne
    cases (hnone w).symm.trans (Goroutine.attends_of_job hne)
  have horder := h.order
  rw [hchan, Goroutine.inHand_eq_nil.mpr hjob, List.append_nil, List.append_nil] at horder
  exact ⟨hchan, horder⟩

end

/-! ## The answers -/

section

variable {s s' : System T} {answers : List (PostedCommand × CommandResponse)}
  {results : List (ChanRef × CommandResponse)}

/-- Every client that waits is the only one on its channel and has not
had its answer, which is in the channel if the command was answered;
every other client got one answer, its own. -/
structure Delivering (answers : List (PostedCommand × CommandResponse))
    (results : List (ChanRef × CommandResponse)) (s : System T) : Prop where
  buffered : ∀ {c r}, s.responses c = some r → ∃ cmd, (cmd, r) ∈ answers ∧ cmd.response = c
  waiting : ∀ {i c}, (s.goroutines i).awaits = some c →
    c < s.nextChan ∧ c ∉ results.map Prod.fst
  alone : ∀ {i j c}, (s.goroutines i).awaits = some c → (s.goroutines j).awaits = some c → i = j
  kept : ∀ {i c cmd r}, (s.goroutines i).awaits = some c → (cmd, r) ∈ answers →
    cmd.response = c → s.responses c = some r
  returned : ∀ {c}, c < s.nextChan →
    (∃ i, (s.goroutines i).awaits = some c) ∨ c ∈ results.map Prod.fst
  own : ∀ {c r}, (c, r) ∈ results → ∃ cmd, (cmd, r) ∈ answers ∧ cmd.response = c
  once : (results.map Prod.fst).Nodup

/-- A step that neither answers a command nor begins or ends a wait. -/
theorem Delivering.same (h : Delivering answers results s)
    (hresponses : s'.responses = s.responses) (hnext : s'.nextChan = s.nextChan)
    (hawaits : ∀ i, (s'.goroutines i).awaits = (s.goroutines i).awaits) :
    Delivering answers results s' := by
  refine ⟨?_, ?_, ?_, ?_, ?_, h.own, h.once⟩
  · rw [hresponses]
    exact h.buffered
  · simp only [hawaits, hnext]
    exact h.waiting
  · simp only [hawaits]
    exact h.alone
  · simp only [hawaits, hresponses]
    exact h.kept
  · simp only [hawaits, hnext]
    exact h.returned

theorem awaits_waiting {i j : GoID} {n c : ChanRef} {g : Goroutine} (hi : s.goroutines i = g)
    (hg : g.awaits = none) : ((s.move i (.waiting n)).goroutines j).awaits = some c ↔
      j = i ∧ n = c ∨ (s.goroutines j).awaits = some c := by
  by_cases hj : j = i
  · subst hj
    rw [move_self, hi, hg]
    simp [Goroutine.awaits]
  · rw [move_of_ne s _ hj]
    simp [hj]

theorem awaits_idle {i j : GoID} {c : ChanRef} :
    ((s.move i .idle).goroutines j).awaits = some c ↔
      j ≠ i ∧ (s.goroutines j).awaits = some c := by
  by_cases hj : j = i
  · subst hj
    rw [move_self]
    simp [Goroutine.awaits]
  · rw [move_of_ne s _ hj]
    simp [hj]

/-- A client puts a command on the channel and waits. -/
theorem Delivering.send (h : Delivering answers results s) {i : GoID}
    (hlt : ∀ {cmd r}, (cmd, r) ∈ answers → cmd.response < s.nextChan)
    (hresponses : s'.responses = s.responses) (hnext : s'.nextChan = s.nextChan + 1)
    (hawaits : ∀ {j c}, (s'.goroutines j).awaits = some c ↔
      j = i ∧ s.nextChan = c ∨ (s.goroutines j).awaits = some c) :
    Delivering answers results s' := by
  have hfresh : s.nextChan ∉ results.map Prod.fst := by
    intro hmem
    obtain ⟨⟨c, r⟩, hmem, heq⟩ := List.mem_map.mp hmem
    obtain ⟨cmd, hanswer, rfl⟩ := h.own hmem
    exact Nat.ne_of_lt (hlt hanswer) heq
  refine ⟨?_, ?_, ?_, ?_, ?_, h.own, h.once⟩
  · rw [hresponses]
    exact h.buffered
  · intro j c hj
    rw [hnext]
    rcases hawaits.mp hj with ⟨-, rfl⟩ | hj
    · exact ⟨Nat.lt_succ_self _, hfresh⟩
    · exact ⟨Nat.lt_succ_of_lt (h.waiting hj).1, (h.waiting hj).2⟩
  · intro j k c hj hk
    rcases hawaits.mp hj with ⟨rfl, hc⟩ | hj <;> rcases hawaits.mp hk with ⟨rfl, hc'⟩ | hk
    · rfl
    · exact absurd hc (Nat.ne_of_gt (h.waiting hk).1)
    · exact absurd hc' (Nat.ne_of_gt (h.waiting hj).1)
    · exact h.alone hj hk
  · intro j c cmd r hj hmem hc
    rw [hresponses]
    rcases hawaits.mp hj with ⟨-, rfl⟩ | hj
    · exact absurd hc (Nat.ne_of_lt (hlt hmem))
    · exact h.kept hj hmem hc
  · intro c hc
    rw [hnext] at hc
    rcases Nat.lt_succ_iff_lt_or_eq.mp hc with hc | rfl
    · refine (h.returned hc).imp_left ?_
      rintro ⟨j, hj⟩
      exact ⟨j, hawaits.mpr (Or.inr hj)⟩
    · exact Or.inl ⟨i, hawaits.mpr (Or.inl ⟨rfl, rfl⟩)⟩

theorem Delivering.respond (h : Delivering answers results s) {cmd : PostedCommand}
    {response : CommandResponse}
    (hne : ∀ {cmd' r}, (cmd', r) ∈ answers → cmd'.response ≠ cmd.response)
    (hresponses : s'.responses = Function.update s.responses cmd.response (some response))
    (hnext : s'.nextChan = s.nextChan)
    (hawaits : ∀ i, (s'.goroutines i).awaits = (s.goroutines i).awaits) :
    Delivering (answers ++ [(cmd, response)]) results s' := by
  have hself : s'.responses cmd.response = some response := by
    rw [hresponses, Function.update_self]
  have hother : ∀ {c}, c ≠ cmd.response → s'.responses c = s.responses c := by
    intro c hc
    rw [hresponses, Function.update_of_ne hc]
  refine ⟨?_, ?_, ?_, ?_, ?_, ?_, h.once⟩
  · intro c r hr
    by_cases hc : c = cmd.response
    · subst hc
      obtain rfl : response = r := Option.some.inj (hself.symm.trans hr)
      exact ⟨cmd, List.mem_append_right _ (List.mem_singleton_self _), rfl⟩
    · obtain ⟨cmd', hmem, hcmd⟩ := h.buffered ((hother hc).symm.trans hr)
      exact ⟨cmd', List.mem_append_left _ hmem, hcmd⟩
  · simp only [hawaits, hnext]
    exact h.waiting
  · simp only [hawaits]
    exact h.alone
  · intro j c cmd' r hj hmem hc
    rw [hawaits] at hj
    rcases List.mem_append.mp hmem with hmem | hmem
    · rw [hother (hc ▸ hne hmem)]
      exact h.kept hj hmem hc
    · cases List.mem_singleton.mp hmem
      rwa [← hc]
  · simp only [hawaits, hnext]
    exact h.returned
  · intro c r hmem
    obtain ⟨cmd', hmem, hcmd⟩ := h.own hmem
    exact ⟨cmd', List.mem_append_left _ hmem, hcmd⟩

theorem Delivering.receive (h : Delivering answers results s) {i : GoID} {c : ChanRef}
    {r : CommandResponse} (hi : (s.goroutines i).awaits = some c) (hr : s.responses c = some r)
    (hresponses : s'.responses = Function.update s.responses c none)
    (hnext : s'.nextChan = s.nextChan)
    (hawaits : ∀ {j c'}, (s'.goroutines j).awaits = some c' ↔
      j ≠ i ∧ (s.goroutines j).awaits = some c') :
    Delivering answers (results ++ [(c, r)]) s' := by
  -- the others wait on other channels
  have hother : ∀ {j c'}, (s'.goroutines j).awaits = some c' →
      (s.goroutines j).awaits = some c' ∧ c' ≠ c := by
    intro j c' hj
    obtain ⟨hji, hj⟩ := hawaits.mp hj
    exact ⟨hj, fun hc => hji (h.alone hj (hc ▸ hi))⟩
  have hfst : (results ++ [(c, r)]).map Prod.fst = results.map Prod.fst ++ [c] := List.map_append
  refine ⟨?_, ?_, ?_, ?_, ?_, ?_, ?_⟩
  · intro c' r' hr'
    by_cases hc : c' = c
    · rw [hresponses, hc, Function.update_self] at hr'
      cases hr'
    · rw [hresponses, Function.update_of_ne hc] at hr'
      exact h.buffered hr'
  · intro j c' hj
    obtain ⟨hj, hc⟩ := hother hj
    rw [hnext, hfst, List.mem_append, List.mem_singleton]
    exact ⟨(h.waiting hj).1, fun hmem => hmem.elim (h.waiting hj).2 hc⟩
  · intro j k c' hj hk
    exact h.alone (hother hj).1 (hother hk).1
  · intro j c' cmd r' hj hmem hc
    obtain ⟨hj, hne⟩ := hother hj
    rw [hresponses, Function.update_of_ne hne]
    exact h.kept hj hmem hc
  · intro c' hc
    rw [hnext] at hc
    rw [hfst, List.mem_append, List.mem_singleton]
    rcases h.returned hc with ⟨j, hj⟩ | hmem
    · by_cases hji : j = i
      · rw [hji] at hj
        exact Or.inr (Or.inr (Option.some.inj (hj.symm.trans hi)))
      · exact Or.inl ⟨j, hawaits.mpr ⟨hji, hj⟩⟩
    · exact Or.inr (Or.inl hmem)
  · intro c' r' hmem
    rcases List.mem_append.mp hmem with hmem | hmem
    · exact h.own hmem
    · cases List.mem_singleton.mp hmem
      exact h.buffered hr
  · rw [hfst]
    exact h.once.append (List.nodup_singleton c)
      (List.disjoint_singleton.mpr (h.waiting hi).2)

end

section

variable [OrderedTree T Decimal LevelRef] {me₀ : MatchingEngine T} {s s' : System T} {e : Event}
  {es : List Event} {posted : List PostedCommand}
  {answers : List (PostedCommand × CommandResponse)} {results : List (ChanRef × CommandResponse)}
  {w : GoID}

theorem Delivering.data (h : Delivering answers results s)
    (hq : Serial me₀ posted answers s w) (hstep : s.Step e s') (he : e.isData = true) :
    Delivering (answers ++ e.answered?.toList) (results ++ e.received?.toList) s' := by
  cases hstep with
  | send hi =>
      simp only [Event.answered?, Event.received?, Option.toList_none, List.append_nil]
      exact h.send hq.answer_lt rfl rfl (awaits_waiting hi rfl)
  | receive hi hresult =>
      simp only [Event.answered?, Option.toList_none, List.append_nil]
      exact h.receive (by rw [hi]; rfl) hresult rfl rfl awaits_idle
  | take hi | takeLeft hi | process hi =>
      simp only [Event.answered?, Event.received?, Option.toList_none, List.append_nil]
      exact h.same rfl rfl (move_same Goroutine.awaits hi _ rfl)
  | @respond i ctx cmd response hi hroom =>
      obtain rfl := hq.one.eq (congrArg Goroutine.role hi) rfl
      simp only [Event.received?, Option.toList_none, List.append_nil]
      have hresume : (Goroutine.resume ctx).awaits = none := by cases ctx <;> rfl
      exact h.respond (fun hmem => (hq.inHand (by rw [hi]; rfl)).2 _ hmem) rfl rfl
        (move_same Goroutine.awaits hi _ hresume)
  | _ => cases he

theorem Delivering.step (h : Delivering answers results s)
    (hq : Serial me₀ posted answers s w) (hstep : s.Step e s') :
    Delivering (answers ++ e.answered?.toList) (results ++ e.received?.toList) s' := by
  cases he : e.isData with
  | true => exact h.data hq hstep he
  | false =>
      have hquiet := hstep.quiet he
      rw [hquiet.answered, hquiet.received, Option.toList_none, List.append_nil,
        Option.toList_none, List.append_nil]
      exact h.same hquiet.responses hquiet.nextChan hquiet.awaits

/-- What holds in a run in which commands are sent only while the worker
attends to the channel. -/
theorem answering {instrument : String}
    (h : Trace (Where Next Attended) (newSystem instrument) es s) :
    (∃ w, Answering (newMatchingEngine instrument) (sent es) (answered es) s w)
      ∧ Delivering (answered es) (received es) s := by
  refine h.invariant (P := fun es s =>
    (∃ w, Answering (newMatchingEngine instrument) (sent es) (answered es) s w)
      ∧ Delivering (answered es) (received es) s) ⟨⟨0, ?_⟩, ?_⟩ ?_
  · exact ⟨⟨rfl, nofun, rfl⟩, rfl, rfl, fun hne => absurd rfl hne, .nil⟩
  · exact ⟨nofun, nofun, nofun, nofun, nofun, nofun, List.nodup_nil⟩
  · rintro es s e s' ⟨⟨w, hq⟩, hd⟩ ⟨hok, -, hstep⟩
    rw [sent, answered, received, history_snoc, history_snoc, history_snoc]
    exact ⟨⟨_, hq.step hok hstep⟩, hd.step hq.inTurn hstep⟩

/-! ## Every command gets its answer -/

/-- How far the worker is from having answered everything. -/
def backlog (s : System T) (w : GoID) : Nat :=
  3 * s.commandChan.length + (s.goroutines w).stage

theorem backlog_move {T : Type} (s : System T) (w : GoID) (g : Goroutine) :
    (s.move w g).backlog w = 3 * s.commandChan.length + g.stage := by
  rw [backlog, move_self]
  rfl

/-- The worker can match the command in its hands. -/
theorem Answering.handles (h : Answering me₀ posted answers s w) (h₀ : me₀.Initial)
    (hfresh : FreshIDs (posted.map PostedCommand.request)) {ctx : Option Ctx} {cmd : PostedCommand}
    (hw : s.goroutines w = .processing ctx cmd) :
    ∃ fuel me response, s.engine.handle fuel cmd.request = some (me, response) := by
  have hserial := h.serial
  rw [hw, show (Goroutine.processing ctx cmd).matched = [] from rfl, List.append_nil] at hserial
  obtain ⟨trades, hrun⟩ := hserial.run
  have hrequests : posted.map PostedCommand.request =
      (answers.map fun d => d.1.request) ++ [cmd.request]
        ++ s.commandChan.map PostedCommand.request := by
    rw [h.order, hw, List.map_append, List.map_append, List.map_map]
    rfl
  rw [hrequests] at hfresh
  have hfresh := hfresh.of_append_left
  obtain ⟨fuel, me, response, hhandle, -⟩ :=
    MatchingEngine.handle_total (hrun.sound h₀ hfresh.of_append) hfresh
  exact ⟨fuel, me, response, hhandle⟩

/-- The worker can answer the command in its hands. -/
theorem Answering.responds (h : Answering me₀ posted answers s w)
    (hd : Delivering answers results s) {ctx : Option Ctx} {cmd : PostedCommand}
    {response : CommandResponse} (hw : s.goroutines w = .responding ctx cmd response) :
    s.responses cmd.response = none := by
  cases hr : s.responses cmd.response with
  | none => rfl
  | some r =>
      obtain ⟨cmd', hmem, heq⟩ := hd.buffered hr
      exact absurd heq ((h.inTurn.inHand (by rw [hw]; rfl)).2 _ hmem)

/-- As long as something is left, the worker has a step that brings it
closer to the end. -/
theorem Answering.works (h : Answering me₀ posted answers s w)
    (hd : Delivering answers results s) (h₀ : me₀.Initial)
    (hfresh : FreshIDs (posted.map PostedCommand.request))
    (hworking : (s.life.roles w).isWorking = true)
    (hleft : (s.goroutines w).inHand ++ s.commandChan ≠ []) :
    ∃ e s', e.isWork = true ∧ s.Next e s' ∧ s'.backlog w < s.backlog w := by
  have hchan : (s.goroutines w).job = none →
      ∃ cmd rest, s.commandChan = cmd :: rest := by
    intro hjob
    rw [Goroutine.inHand, hjob] at hleft
    exact List.exists_cons_of_ne_nil hleft
  have hcalm := h.one.calm
  cases hw : s.goroutines w with
  | selecting ctx =>
      obtain ⟨cmd, rest, hchan⟩ := hchan (by rw [hw]; rfl)
      refine ⟨_, _, rfl, ⟨hcalm, .take hw hchan⟩, ?_⟩
      rw [backlog_move, backlog, hchan, List.length_cons]
      exact Nat.lt_add_right _ (Nat.lt_succ_self _)
  | draining =>
      obtain ⟨cmd, rest, hchan⟩ := hchan (by rw [hw]; rfl)
      refine ⟨_, _, rfl, ⟨hcalm, .takeLeft hw hchan⟩, ?_⟩
      rw [backlog_move, backlog, hchan, List.length_cons]
      exact Nat.lt_add_right _ (Nat.lt_succ_self _)
  | processing ctx cmd =>
      obtain ⟨fuel, me, response, hhandle⟩ := h.handles h₀ hfresh hw
      refine ⟨_, _, rfl, ⟨hcalm, .process hw hhandle⟩, ?_⟩
      rw [backlog_move, backlog, hw]
      exact Nat.lt_succ_self _
  | responding ctx cmd response =>
      refine ⟨_, _, rfl, ⟨hcalm, .respond hw (h.responds hd hw)⟩, ?_⟩
      rw [backlog_move, backlog, hw, Goroutine.stage, Goroutine.resume_job]
      exact Nat.lt_succ_self _
  | _ =>
      cases (congrArg (fun g => g.role.isWorking) hw).symm.trans hworking

/-- The steps of the worker alone answer everything that was sent. -/
theorem Answering.finishes (h : Answering me₀ posted answers s w)
    (hd : Delivering answers results s) (h₀ : me₀.Initial)
    (hfresh : FreshIDs (posted.map PostedCommand.request))
    (hworking : (s.life.roles w).isWorking = true) :
    ∃ es s', Trace Next s es s' ∧ (∀ e ∈ es, e.isWork = true)
      ∧ (answers ++ answered es).map Prod.fst = posted := by
  induction hn : s.backlog w using Nat.strong_induction_on generalizing s answers results with
  | _ n ih =>
      by_cases hleft : (s.goroutines w).inHand ++ s.commandChan = []
      · refine ⟨[], s, .nil, List.forall_mem_nil _, ?_⟩
        rw [h.order, List.append_assoc, hleft]
        exact List.map_append
      · obtain ⟨e, s', he, hnext, hlt⟩ := h.works hd h₀ hfresh hworking hleft
        have hok : s.Attended e := by cases e <;> trivial
        have hsilent : e.isSilent = true := by cases e <;> first | rfl | cases he
        have hsent : e.sent? = none := by cases e <;> first | rfl | cases he
        have hq := h.step hok hnext.2
        rw [hsent, Event.worker_of_silent hsilent, Option.toList_none, List.append_nil] at hq
        rw [← hnext.2.life.eq_of_silent hsilent] at hworking
        obtain ⟨es, s'', htrace, hwork, hall⟩ :=
          ih _ (hn ▸ hlt) hq (hd.step h.inTurn hnext.2) hworking rfl
        refine ⟨[e] ++ es, s'', (Trace.nil.snoc hnext).append htrace, ?_, ?_⟩
        · exact List.forall_mem_cons.mpr ⟨he, hwork⟩
        · have hfirst : answered [e] = e.answered?.toList := history_snoc _ [] e
          rw [← hall, List.append_assoc, ← hfirst, answered, List.filterMap_append]
          rfl

end

end System

/-- In a run in which commands are sent only while a worker will look
into the channel again or is being started, nobody starts a second worker
and `stopChan` is not closed twice:

* the commands that were sent, in the order of the channel, are those
  that were answered, the one in the hands of the worker and those in the
  channel, and the book is where it gets by handling them in that order,
* no command is sent or received twice, and every answer is with the
  client or in the channel that the client waits on,
* when there is no such worker, the channel is empty and every client that
  waits has its answer,
* when there is one, its own steps answer everything that was sent. -/
theorem commands_answered [OrderedTree T Decimal LevelRef] {instrument : String}
    {es : List Event} {s : System T}
    (h : Trace (Where System.Next System.Attended) (newSystem instrument) es s) :
    s.panicked = false
    ∧ (∃ w, (∀ i, (s.goroutines i).inHand ≠ [] → i = w)
      ∧ sent es = (answered es).map Prod.fst ++ (s.goroutines w).inHand ++ s.commandChan
      ∧ Replies (newMatchingEngine instrument) (answered es ++ (s.goroutines w).matched) s.engine)
    ∧ ((sent es).map PostedCommand.response).Nodup ∧ ((received es).map Prod.fst).Nodup
    ∧ (∀ c r, (c, r) ∈ received es → ∃ cmd, (cmd, r) ∈ answered es ∧ cmd.response = c)
    ∧ (∀ cmd r, (cmd, r) ∈ answered es → (cmd.response, r) ∈ received es
        ∨ s.responses cmd.response = some r ∧ ∃ i, s.goroutines i = .waiting cmd.response)
    ∧ ((∀ i, (s.goroutines i).role.attends = false) → s.commandChan = []
        ∧ ∀ i c, s.goroutines i = .waiting c → (s.responses c).isSome = true)
    ∧ ((∃ i, (s.goroutines i).role.isWorking = true) →
        FreshIDs ((sent es).map PostedCommand.request) → ∃ es' s', Trace System.Next s es' s'
          ∧ (∀ e ∈ es', e.isWork = true) ∧ (answered (es ++ es')).map Prod.fst = sent es) := by
  obtain ⟨⟨w, hq⟩, hd⟩ := System.answering h
  refine ⟨hq.one.calm, ⟨w, fun i hi => ?_, hq.order, hq.serial⟩, hq.channels_nodup, hd.once,
    fun c r hmem => hd.own hmem, fun cmd r hmem => ?_, fun hnone => ?_, fun hworking hfresh => ?_⟩
  · exact hq.one.engaged i (Goroutine.engaged_of_job (mt Goroutine.inHand_eq_nil.mpr hi))
  · rcases hd.returned (hq.inTurn.answer_lt hmem) with ⟨i, hi⟩ | hreturned
    · exact Or.inr ⟨hd.kept hi hmem rfl, i, Goroutine.eq_waiting hi⟩
    · obtain ⟨⟨c, r'⟩, hmem', hc⟩ := List.mem_map.mp hreturned
      obtain rfl : c = cmd.response := hc
      obtain ⟨cmd', hanswer, heq⟩ := hd.own hmem'
      rw [hq.answer_unique hmem hanswer heq.symm]
      exact Or.inl hmem'
  · obtain ⟨hchan, hall⟩ := hq.all_answered hnone
    refine ⟨hchan, fun i c hi => ?_⟩
    have hwaits : (s.goroutines i).awaits = some c := by rw [hi]; rfl
    have hmem : c ∈ (sent es).map PostedCommand.response := by
      rw [hq.channels]
      exact List.mem_range.mpr (hd.waiting hwaits).1
    rw [hall, List.map_map] at hmem
    obtain ⟨⟨cmd, r⟩, hanswer, hc⟩ := List.mem_map.mp hmem
    rw [hd.kept hwaits hanswer hc]
    rfl
  · obtain ⟨i, hi⟩ := hworking
    obtain rfl := hq.one.engaged i (Role.engaged_of_attends (Role.attends_of_working hi))
    obtain ⟨es', s', htrace, hwork, hall⟩ := hq.finishes hd ⟨_, rfl⟩ hfresh hi
    refine ⟨es', s', htrace, hwork, ?_⟩
    rw [answered, List.filterMap_append]
    exact hall

theorem commands_answered_sent :
    ∃ s : System (SortedItems Decimal LevelRef),
      Trace (Where System.Next System.Attended) (newSystem "BTC-USD")
        [.start 0 0 true, .add 0, .go 0 1, .call 2 (.new sellFive) true,
          .send 2 ⟨.new sellFive, 0⟩] s
      ∧ ∃ es' s', Trace System.Next s es' s'
        ∧ (answered es').map Prod.fst = [⟨.new sellFive, 0⟩] := by
  have h₀ : Trace (Where System.Next System.Attended)
      (newSystem "BTC-USD" : System (SortedItems Decimal LevelRef)) [] _ := .nil
  have h := h₀.next (.start 0 0 true) ⟨fun _ => rfl, rfl, .start rfl rfl⟩
    |>.next (.add 0) ⟨trivial, rfl, .add rfl⟩
    |>.next (.go 0 1) ⟨trivial, rfl, .go rfl rfl⟩
    |>.next (.call 2 (.new sellFive) true) ⟨trivial, rfl, .call rfl rfl⟩
    |>.next (.send 2 ⟨.new sellFive, 0⟩) ⟨⟨1, rfl⟩, rfl, .send rfl (by decide)⟩
  obtain ⟨es', s', htrace, -, hall⟩ := (commands_answered h).2.2.2.2.2.2.2 ⟨1, rfl⟩ (by decide)
  exact ⟨_, h, es', s', htrace, hall⟩

/-- A client finds the engine running, the worker is stopped and finds
the channel empty, and then the client sends: the worker has gone, the
command is in the channel, and the client waits. -/
theorem late_command_not_answered :
    ∃ s : System (SortedItems Decimal LevelRef),
      Trace System.Next (newSystem "BTC-USD")
        [.start 0 0 true, .add 0, .go 0 1, .call 2 (.new sellFive) true, .stop 0 true, .close 0,
          .quit 1, .drained 1, .send 2 ⟨.new sellFive, 0⟩, .exit 1, .wait 0, .reset 0] s
      ∧ (∀ i, (s.goroutines i).role = .other) ∧ s.commandChan = [⟨.new sellFive, 0⟩]
      ∧ s.goroutines 2 = .waiting 0 ∧ s.responses 0 = none := by
  have h₀ : Trace System.Next (newSystem "BTC-USD" : System (SortedItems Decimal LevelRef)) [] _ :=
    .nil
  have h := h₀.next (.start 0 0 true) ⟨rfl, .start rfl rfl⟩
    |>.next (.add 0) ⟨rfl, .add rfl⟩
    |>.next (.go 0 1) ⟨rfl, .go rfl rfl⟩
    |>.next (.call 2 (.new sellFive) true) ⟨rfl, .call rfl rfl⟩
    |>.next (.stop 0 true) ⟨rfl, .stop rfl rfl⟩
    |>.next (.close 0) ⟨rfl, .close rfl rfl⟩
    |>.next (.quit 1) ⟨rfl, .quitStopped rfl rfl⟩
    |>.next (.drained 1) ⟨rfl, .drained rfl rfl⟩
    |>.next (.send 2 ⟨.new sellFive, 0⟩) ⟨rfl, .send rfl (by decide)⟩
    |>.next (.exit 1) ⟨rfl, .exit rfl rfl⟩
    |>.next (.wait 0) ⟨rfl, .wait rfl rfl⟩
    |>.next (.reset 0) ⟨rfl, .reset rfl⟩
  refine ⟨_, h, fun i => ?_, rfl, rfl, rfl⟩
  match i with
  | 0 | 1 | 2 | n + 3 => rfl

end TradingBackend
