import TradingBackend.Answers
import TradingBackend.Linearization

/-!
# The engine as a shared object

Any number of clients call `SubmitOrder` and `CancelOrder` at the same
time. Their calls are numbered in the order in which they pass the check
of `isRunning` (`CallLog`), and what the clients see is which of them was
made when and what it returned when (`history`).

An operation takes effect when the worker answers it. As long as there is
no second worker, that makes the engine linearizable: `Serial` says that
the worker answers the commands one after the other, and `Numbered` that
an answer gets to the call it was made for.

Nothing is asked here about `Stop`: a command that nobody answers any more
is an operation that has not returned.
-/

namespace TradingBackend

/-! ## The operations of a trace -/

/-- The calls so far, the last one of each goroutine, and the one whose
answer goes to a response channel. -/
structure CallLog where
  count : Nat
  current : GoID → Nat
  ofChan : ChanRef → Nat

namespace CallLog

def empty : CallLog := ⟨0, fun _ => 0, fun _ => 0⟩

def step (log : CallLog) : Event → CallLog
  | .call i _ true =>
      { log with count := log.count + 1, current := Function.update log.current i log.count }
  | .send i cmd => { log with ofChan := Function.update log.ofChan cmd.response (log.current i) }
  | _ => log

def mark? (log : CallLog) : Event → Option (Mark Nat Request CommandResponse)
  | .call _ request true => some (.call log.count request)
  | .respond _ cmd response => some (.effect (log.ofChan cmd.response) cmd.request response)
  | .receive i _ result => some (.ret (log.current i) result)
  | _ => none

def marks (log : CallLog) : List Event → List (Mark Nat Request CommandResponse)
  | [] => []
  | e :: es => (log.mark? e).toList ++ (log.step e).marks es

theorem marks_snoc (log : CallLog) (es : List Event) (e : Event) :
    log.marks (es ++ [e]) = log.marks es ++ ((es.foldl step log).mark? e).toList := by
  induction es generalizing log with
  | nil => exact List.append_nil _
  | cons e' es ih =>
      rw [List.cons_append, marks, ih, ← List.append_assoc]
      rfl

end CallLog

def callLog (es : List Event) : CallLog := es.foldl CallLog.step .empty

def marks (es : List Event) : List (Mark Nat Request CommandResponse) := CallLog.empty.marks es

/-- What the clients see: the calls that were passed and what they
returned. -/
def history (es : List Event) : List (Action Nat Request CommandResponse) :=
  Marks.actions (marks es)

variable {T : Type}

def MatchingEngine.Handles [OrderedTree T Decimal LevelRef] (me : MatchingEngine T)
    (request : Request) (response : CommandResponse) (me' : MatchingEngine T) : Prop :=
  ∃ fuel, me.handle fuel request = some (me', response)

theorem callLog_snoc (es : List Event) (e : Event) : callLog (es ++ [e]) = (callLog es).step e :=
  List.foldl_append ..

theorem marks_snoc (es : List Event) (e : Event) :
    marks (es ++ [e]) = marks es ++ ((callLog es).mark? e).toList :=
  CallLog.marks_snoc ..

def Event.isSeen : Event → Bool
  | .call _ _ passed => passed
  | .send .. | .respond .. | .receive .. => true
  | _ => false

def Goroutine.sends : Goroutine → Option Request
  | sending request => some request
  | _ => none

namespace CallLog

variable {e : Event}

theorem step_of_not_seen (log : CallLog) (he : e.isSeen = false) : log.step e = log := by
  cases e with
  | call i request passed =>
      obtain rfl : passed = false := he
      rfl
  | send | respond | receive => cases he
  | _ => rfl

theorem mark_of_not_seen (log : CallLog) (he : e.isSeen = false) : log.mark? e = none := by
  cases e with
  | call i request passed =>
      obtain rfl : passed = false := he
      rfl
  | send | respond | receive => cases he
  | _ => rfl

end CallLog

namespace System

/-- What a goroutine sends or awaits was so before another one moved to a
place where it does neither. -/
theorem of_move {β : Type} {f : Goroutine → Option β} {s : System T} {i j : GoID} {g : Goroutine}
    {x : β} (hg : f g = none) (h : f ((s.move i g).goroutines j) = some x) :
    f (s.goroutines j) = some x := by
  by_cases hj : j = i
  · rw [hj, move_self, hg] at h
    cases h
  · rwa [move_of_ne s g hj] at h

/-! ## Every answer to its call -/

/-- The calls and the channels: a command carries the call it was made in,
a client waits on the channel of its last call, and what is in a channel
is the answer to its command. -/
structure Numbered (log : CallLog) (ms : List (Mark Nat Request CommandResponse))
    (posted : List PostedCommand) (answers : List (PostedCommand × CommandResponse))
    (s : System T) : Prop where
  proper : Marks.Proper ms
  calls : ms.filterMap Mark.called? = List.range log.count
  current : ∀ {i request}, (s.goroutines i).sends = some request → log.current i < log.count
  effects : Marks.effects ms =
    answers.map fun d => (log.ofChan d.1.response, d.1.request, d.2)
  posted : ∀ cmd ∈ posted, .call (log.ofChan cmd.response) cmd.request ∈ ms
  chans : ∀ {c}, c < s.nextChan → log.ofChan c < log.count
  injective : ∀ {c c'}, c < s.nextChan → c' < s.nextChan → log.ofChan c = log.ofChan c' → c = c'
  sending : ∀ {i request}, (s.goroutines i).sends = some request →
    .call (log.current i) request ∈ ms ∧ ∀ c < s.nextChan, log.ofChan c ≠ log.current i
  apart : ∀ {i j r r'}, (s.goroutines i).sends = some r → (s.goroutines j).sends = some r' →
    log.current i = log.current j → i = j
  waiting : ∀ {i c}, (s.goroutines i).awaits = some c →
    c < s.nextChan ∧ log.ofChan c = log.current i
  buffered : ∀ {c r}, s.responses c = some r → ∃ cmd, (cmd, r) ∈ answers ∧ cmd.response = c

section

variable {s s' : System T} {e : Event} {posted : List PostedCommand}
  {answers : List (PostedCommand × CommandResponse)} {log : CallLog}
  {ms : List (Mark Nat Request CommandResponse)} {i : GoID}

theorem Numbered.same (h : Numbered log ms posted answers s)
    (hsends : ∀ {i r}, (s'.goroutines i).sends = some r → (s.goroutines i).sends = some r)
    (hawaits : ∀ {i c}, (s'.goroutines i).awaits = some c → (s.goroutines i).awaits = some c)
    (hresponses : s'.responses = s.responses) (hnext : s'.nextChan = s.nextChan) :
    Numbered log ms posted answers s' where
  proper := h.proper
  calls := h.calls
  current := fun hi => h.current (hsends hi)
  effects := h.effects
  posted := h.posted
  chans := hnext ▸ h.chans
  injective := hnext ▸ h.injective
  sending := fun hi => hnext ▸ h.sending (hsends hi)
  apart := fun hi hj => h.apart (hsends hi) (hsends hj)
  waiting := fun hi => hnext ▸ h.waiting (hawaits hi)
  buffered := fun hr => h.buffered (hresponses ▸ hr)

theorem Numbered.call (h : Numbered log ms posted answers s) {request : Request}
    (hi : s.goroutines i = .idle) :
    Numbered (log.step (.call i request true)) (ms ++ [.call log.count request]) posted answers
      (s.move i (.sending request)) := by
  have hother : ∀ {j}, j ≠ i →
      (log.step (.call i request true)).current j = log.current j := fun hj =>
    Function.update_of_ne hj ..
  have hself : (log.step (.call i request true)).current i = log.count :=
    Function.update_self ..
  have hmem : ∀ {m}, m ∈ ms → m ∈ ms ++ [.call log.count request] := List.mem_append_left _
  refine ⟨h.proper.call ?_, ?_, ?_, ?_, ?_, ?_, h.injective, ?_, ?_, ?_, h.buffered⟩
  · rw [h.calls, List.mem_range]
    exact Nat.lt_irrefl _
  · rw [history_snoc, h.calls]
    exact List.range_succ.symm
  · intro j r hj
    by_cases hji : j = i
    · rw [hji, hself]
      exact Nat.lt_succ_self _
    · rw [move_of_ne s _ hji] at hj
      rw [hother hji]
      exact Nat.lt_succ_of_lt (h.current hj)
  · exact (history_snoc ..).trans ((List.append_nil _).trans h.effects)
  · exact fun cmd hcmd => hmem (h.posted cmd hcmd)
  · exact fun hc => Nat.lt_succ_of_lt (h.chans hc)
  · intro j r hj
    by_cases hji : j = i
    · subst hji
      rw [move_self] at hj
      obtain rfl := Option.some.inj hj
      rw [hself]
      exact ⟨List.mem_append_right _ (List.mem_singleton_self _), fun c hc =>
        Nat.ne_of_lt (h.chans hc)⟩
    · rw [move_of_ne s _ hji] at hj
      rw [hother hji]
      exact ⟨hmem (h.sending hj).1, (h.sending hj).2⟩
  · intro j k r r' hj hk heq
    by_cases hji : j = i <;> by_cases hki : k = i
    · rw [hji, hki]
    · rw [move_of_ne s _ hki] at hk
      rw [hji] at heq
      exact absurd ((hother hki).symm.trans (heq.symm.trans hself)) (Nat.ne_of_lt (h.current hk))
    · rw [move_of_ne s _ hji] at hj
      rw [hki] at heq
      exact absurd ((hother hji).symm.trans (heq.trans hself)) (Nat.ne_of_lt (h.current hj))
    · rw [move_of_ne s _ hji] at hj
      rw [move_of_ne s _ hki] at hk
      exact h.apart hj hk ((hother hji).symm.trans (heq.trans (hother hki)))
  · intro j c hj
    have hji : j ≠ i := by
      rintro rfl
      rw [move_self] at hj
      cases hj
    rw [move_of_ne s _ hji] at hj
    rw [hother hji]
    exact h.waiting hj

theorem Numbered.send (h : Numbered log ms posted answers s) {request : Request}
    (hi : s.goroutines i = .sending request)
    (hposted : ∀ cmd ∈ posted, cmd.response < s.nextChan)
    (hanswers : ∀ d ∈ answers, d.1.response < s.nextChan)
    (hs : s' = { s with
        commandChan := s.commandChan ++ [PostedCommand.mk request s.nextChan]
        nextChan := s.nextChan + 1 }.move i (.waiting s.nextChan)) :
    Numbered (log.step (.send i ⟨request, s.nextChan⟩)) ms (posted ++ [⟨request, s.nextChan⟩])
      answers s' := by
  have hsends : (s.goroutines i).sends = some request := by rw [hi]; rfl
  obtain ⟨hcall, hfresh⟩ := h.sending hsends
  have hself : (log.step (.send i ⟨request, s.nextChan⟩)).ofChan s.nextChan = log.current i :=
    Function.update_self ..
  have hold : ∀ {c}, c < s.nextChan →
      (log.step (.send i ⟨request, s.nextChan⟩)).ofChan c = log.ofChan c := fun hc =>
    Function.update_of_ne (Nat.ne_of_lt hc) ..
  have hsends' : ∀ {j r}, (s'.goroutines j).sends = some r →
      j ≠ i ∧ (s.goroutines j).sends = some r := by
    intro j r hj
    rw [hs] at hj
    refine ⟨?_, of_move rfl hj⟩
    rintro rfl
    rw [move_self] at hj
    cases hj
  have hnext : s'.nextChan = s.nextChan + 1 := by rw [hs]; rfl
  refine ⟨h.proper, h.calls, fun hj => h.current (hsends' hj).2, ?_, ?_, ?_, ?_, ?_, ?_, ?_, ?_⟩
  · rw [h.effects]
    refine List.map_congr_left fun d hd => ?_
    exact congrArg (·, d.1.request, d.2) (hold (hanswers d hd)).symm
  · intro cmd hcmd
    rcases List.mem_append.mp hcmd with hcmd | hcmd
    · rw [hold (hposted cmd hcmd)]
      exact h.posted cmd hcmd
    · obtain rfl := List.mem_singleton.mp hcmd
      rw [hself]
      exact hcall
  · intro c hc
    rcases Nat.lt_succ_iff_lt_or_eq.mp (hnext ▸ hc) with hc | rfl
    · rw [hold hc]
      exact h.chans hc
    · rw [hself]
      exact h.current hsends
  · intro c c' hc hc' heq
    rcases Nat.lt_succ_iff_lt_or_eq.mp (hnext ▸ hc) with hc | rfl <;>
      rcases Nat.lt_succ_iff_lt_or_eq.mp (hnext ▸ hc') with hc' | rfl
    · exact h.injective hc hc' ((hold hc).symm.trans (heq.trans (hold hc')))
    · exact absurd ((hold hc).symm.trans (heq.trans hself)) (hfresh c hc)
    · exact absurd ((hold hc').symm.trans (heq.symm.trans hself)) (hfresh c' hc')
    · rfl
  · intro j r hj
    obtain ⟨hji, hj⟩ := hsends' hj
    refine ⟨(h.sending hj).1, fun c hc heq => ?_⟩
    rcases Nat.lt_succ_iff_lt_or_eq.mp (hnext ▸ hc) with hc | rfl
    · exact (h.sending hj).2 c hc ((hold hc).symm.trans heq)
    · exact hji (h.apart hj hsends (heq.symm.trans hself))
  · exact fun hj hk => h.apart (hsends' hj).2 (hsends' hk).2
  · intro j c hj
    rw [hs] at hj
    rcases (awaits_waiting hi rfl).mp hj with ⟨rfl, rfl⟩ | hj
    · exact ⟨hnext ▸ Nat.lt_succ_self _, hself⟩
    · obtain ⟨hc, heq⟩ := h.waiting hj
      exact ⟨hnext ▸ Nat.lt_succ_of_lt hc, (hold hc).trans heq⟩
  · intro c r hr
    rw [hs] at hr
    exact h.buffered hr

theorem Numbered.respond (h : Numbered log ms posted answers s) {cmd : PostedCommand}
    {response : CommandResponse} {g g' : Goroutine} (hi : s.goroutines i = g)
    (hg : g'.awaits = g.awaits) (hsends : g'.sends = none) (hcmd : cmd ∈ posted)
    (hlt : ∀ cmd ∈ posted, cmd.response < s.nextChan)
    (hanswers : ∀ d ∈ answers, d.1 ∈ posted ∧ d.1.response ≠ cmd.response)
    (hs : s' = { s with
        responses := Function.update s.responses cmd.response (some response) }.move i g') :
    Numbered log (ms ++ [.effect (log.ofChan cmd.response) cmd.request response]) posted
      (answers ++ [(cmd, response)]) s' := by
  have hmem : ∀ {m}, m ∈ ms →
      m ∈ ms ++ [.effect (log.ofChan cmd.response) cmd.request response] :=
    List.mem_append_left _
  have hsends' : ∀ {j r}, (s'.goroutines j).sends = some r → (s.goroutines j).sends = some r := by
    intro j r hj
    rw [hs] at hj
    exact of_move hsends hj
  have hawaits : ∀ {j c}, (s'.goroutines j).awaits = some c →
      (s.goroutines j).awaits = some c := by
    intro j c hj
    rw [hs] at hj
    rwa [← move_same Goroutine.awaits hi g' hg]
  have hnext : s'.nextChan = s.nextChan := by rw [hs]; rfl
  refine ⟨h.proper.effect (h.posted cmd hcmd) ?_, ?_, fun hj => h.current (hsends' hj), ?_,
    fun cmd' hcmd' => hmem (h.posted cmd' hcmd'), fun hc => h.chans (hnext ▸ hc),
    hnext ▸ h.injective, fun hj => ?_, fun hj hk => h.apart (hsends' hj) (hsends' hk),
    fun hj => hnext ▸ h.waiting (hawaits hj), fun {c r} hr => ?_⟩
  · -- another command with an answer has another channel, and so another call
    rw [h.effects, List.map_map]
    intro hop
    obtain ⟨d, hd, heq⟩ := List.mem_map.mp hop
    obtain ⟨hposted, hne⟩ := hanswers d hd
    exact hne (h.injective (hlt _ hposted) (hlt _ hcmd) heq)
  · exact (history_snoc ..).trans ((List.append_nil _).trans h.calls)
  · rw [Marks.effects, history_snoc, List.map_append]
    exact congrArg (· ++ _) h.effects
  · obtain ⟨hcall, hfresh⟩ := h.sending (hsends' hj)
    exact ⟨hmem hcall, hnext ▸ hfresh⟩
  · have hresponses : s'.responses = Function.update s.responses cmd.response (some response) := by
      rw [hs]
      rfl
    rw [hresponses] at hr
    by_cases hc : c = cmd.response
    · rw [hc, Function.update_self] at hr
      obtain rfl := Option.some.inj hr
      exact ⟨cmd, List.mem_append_right _ (List.mem_singleton_self _), hc.symm⟩
    · rw [Function.update_of_ne hc] at hr
      obtain ⟨cmd', hmem', heq⟩ := h.buffered hr
      exact ⟨cmd', List.mem_append_left _ hmem', heq⟩

theorem Numbered.receive (h : Numbered log ms posted answers s) {c : ChanRef}
    {result : CommandResponse} (hi : s.goroutines i = .waiting c)
    (hresult : s.responses c = some result) :
    Numbered log (ms ++ [.ret (log.current i) result]) posted answers
      ({ s with responses := Function.update s.responses c none }.move i .idle) := by
  have hmem : ∀ {m}, m ∈ ms → m ∈ ms ++ [.ret (log.current i) result] := List.mem_append_left _
  have heffect : ∃ a, .effect (log.current i) a result ∈ ms := by
    obtain ⟨cmd, hanswer, rfl⟩ := h.buffered hresult
    refine ⟨cmd.request, Marks.mem_effects.mp ?_⟩
    rw [← (h.waiting (by rw [hi]; rfl)).2, h.effects]
    exact List.mem_map.mpr ⟨_, hanswer, rfl⟩
  obtain ⟨a, heffect⟩ := heffect
  refine ⟨h.proper.ret heffect, ?_, fun hj => h.current (of_move rfl hj), ?_,
    fun cmd hcmd => hmem (h.posted cmd hcmd), h.chans, h.injective, fun hj => ?_,
    fun hj hk => h.apart (of_move rfl hj) (of_move rfl hk),
    fun hj => h.waiting (of_move rfl hj), fun {c' r} hr => h.buffered ?_⟩
  · exact (history_snoc ..).trans ((List.append_nil _).trans h.calls)
  · exact (history_snoc ..).trans ((List.append_nil _).trans h.effects)
  · obtain ⟨hcall, hfresh⟩ := h.sending (of_move rfl hj)
    exact ⟨hmem hcall, hfresh⟩
  · have hr : Function.update s.responses c none c' = some r := hr
    by_cases hc : c' = c
    · rw [hc, Function.update_self] at hr
      cases hr
    · rwa [Function.update_of_ne hc] at hr

end

section

variable [OrderedTree T Decimal LevelRef] {me₀ : MatchingEngine T} {s s' : System T} {e : Event}
  {es : List Event} {posted : List PostedCommand}
  {answers : List (PostedCommand × CommandResponse)} {log : CallLog}
  {ms : List (Mark Nat Request CommandResponse)} {w : GoID}

theorem Step.clients (h : s.Step e s') (he : e.isSeen = false) :
    (∀ {i r}, (s'.goroutines i).sends = some r → (s.goroutines i).sends = some r)
    ∧ (∀ {i c}, (s'.goroutines i).awaits = some c → (s.goroutines i).awaits = some c)
    ∧ s'.responses = s.responses ∧ s'.nextChan = s.nextChan := by
  cases h with
  | call | send | respond | receive => cases he
  | startRefused | stopRefused | isRunning | callRefused | cancel | closeClosed | exitNegative =>
      exact ⟨id, id, rfl, rfl⟩
  | go hi hj =>
      exact ⟨fun h => of_move rfl (of_move rfl h),
        fun h => of_move rfl (of_move rfl h), rfl, rfl⟩
  | _ => exact ⟨fun h => of_move rfl h, fun h => of_move rfl h, rfl, rfl⟩

theorem Numbered.step (h : Numbered log ms posted answers s)
    (hq : Serial me₀ posted answers s w) (hstep : s.Step e s') :
    Numbered (log.step e) (ms ++ (log.mark? e).toList) (posted ++ e.sent?.toList)
      (answers ++ e.answered?.toList) s' := by
  cases he : e.isSeen with
  | false =>
      have hsent : e.sent? = none := by cases e <;> first | rfl | cases he
      have hanswered : e.answered? = none := by cases e <;> first | rfl | cases he
      rw [log.step_of_not_seen he, log.mark_of_not_seen he, hsent, hanswered]
      simp only [Option.toList_none, List.append_nil]
      obtain ⟨hsends, hawaits, hresponses, hnext⟩ := hstep.clients he
      exact h.same hsends hawaits hresponses hnext
  | true =>
      cases hstep with
      | call hi =>
          simp only [Event.sent?, Event.answered?, Option.toList_none, List.append_nil]
          exact h.call hi
      | send hi =>
          simp only [CallLog.mark?, Event.answered?, Option.toList_none, List.append_nil]
          exact h.send hi (fun _ => hq.posted_lt) (fun _ hd => hq.answer_lt hd) rfl
      | @respond i ctx cmd response hi =>
          simp only [Event.sent?, Option.toList_none, List.append_nil]
          obtain rfl := hq.one.eq (congrArg Goroutine.role hi) rfl
          obtain ⟨hposted, hne⟩ := hq.inHand (by rw [hi]; rfl)
          have hresume : (Goroutine.resume ctx).awaits = none
              ∧ (Goroutine.resume ctx).sends = none := by cases ctx <;> exact ⟨rfl, rfl⟩
          exact h.respond hi hresume.1 hresume.2 hposted (fun _ => hq.posted_lt)
            (fun d hd => ⟨hq.answer_posted hd, hne d hd⟩) rfl
      | receive hi hresult =>
          simp only [Event.sent?, Event.answered?, Option.toList_none, List.append_nil]
          exact h.receive hi hresult
      | _ => cases he

theorem numbered {instrument : String}
    (h : Trace (Where Next fun s e => s.life.Alone e) (newSystem instrument) es s) :
    (∃ w, Serial (newMatchingEngine instrument) (sent es) (answered es) s w)
    ∧ Numbered (callLog es) (marks es) (sent es) (answered es) s := by
  refine h.invariant (P := fun es s =>
    (∃ w, Serial (newMatchingEngine instrument) (sent es) (answered es) s w)
    ∧ Numbered (callLog es) (marks es) (sent es) (answered es) s) ⟨⟨0, ?_⟩, ?_⟩ ?_
  · exact ⟨⟨rfl, nofun, rfl⟩, rfl, rfl, .nil⟩
  · exact ⟨.nil, rfl, nofun, rfl, List.forall_mem_nil _, fun hc => absurd hc (Nat.not_lt_zero _),
      fun hc => absurd hc (Nat.not_lt_zero _), nofun, nofun, nofun, nofun⟩
  · rintro es s e s' ⟨⟨w, hq⟩, hn⟩ ⟨hok, -, hstep⟩
    rw [sent, answered, history_snoc, history_snoc, marks_snoc, callLog_snoc]
    exact ⟨⟨_, hq.step hok hstep⟩, hn.step hq hstep⟩

end

end System

section

variable [OrderedTree T Decimal LevelRef] {me₀ me : MatchingEngine T}

theorem Replies.trace {ι : Type} {done : List (PostedCommand × CommandResponse)}
    (h : Replies me₀ done me) (op : PostedCommand → ι) :
    Trace (fun me x me' => MatchingEngine.Handles me x.2.1 x.2.2 me') me₀
      (done.map fun d => (op d.1, d.1.request, d.2)) me := by
  induction h with
  | nil => exact .nil
  | snoc _ hstep ih =>
      rw [List.map_append]
      exact ih.snoc ⟨_, hstep⟩

theorem Replies.init {done done' : List (PostedCommand × CommandResponse)}
    (h : Replies me₀ (done ++ done') me) : ∃ me', Replies me₀ done me' := by
  induction done' using List.reverseRecOn generalizing me with
  | nil =>
      rw [List.append_nil] at h
      exact ⟨me, h⟩
  | append_singleton done' d ih =>
      rw [← List.append_assoc] at h
      generalize hall : done ++ done' ++ [d] = all at h
      cases h with
      | nil => simp at hall
      | snoc h hstep =>
          obtain ⟨rfl, -⟩ := List.append_inj' hall rfl
          exact ih h

end

/-- Whatever the clients do at the same time, what they see is explained by
the engine handling the operations one after the other, in an order in
which an operation that returned before another one was called comes
first. The order is that of the command channel. -/
theorem engine_linearizable [OrderedTree T Decimal LevelRef] {instrument : String}
    {es : List Event} {s : System T}
    (h : Trace (Where System.Next fun s e => s.life.Alone e) (newSystem instrument) es s) :
    ∃ order, Linearization MatchingEngine.Handles (newMatchingEngine instrument : MatchingEngine T)
        (history es) order
      ∧ order.map (fun x => x.2.1) <+: (sent es).map PostedCommand.request := by
  obtain ⟨⟨w, hq⟩, hn⟩ := System.numbered h
  obtain ⟨me, hreplies⟩ := hq.replies.init
  have hlegal := hreplies.trace fun cmd => (callLog es).ofChan cmd.response
  rw [← hn.effects] at hlegal
  refine ⟨_, hn.proper.linearization hlegal, ?_⟩
  rw [hn.effects, hq.order, List.map_map, List.append_assoc, List.map_append, List.map_map]
  exact List.prefix_append ..

/-- Two calls overlap: the one that is made first is sent last. -/
def overlappingCalls (response : CommandResponse) : List Event :=
  [.start 0 0 true, .add 0, .go 0 1, .call 2 (.new sellFive) true, .call 3 (.new buyThree) true,
    .send 3 ⟨.new buyThree, 0⟩, .send 2 ⟨.new sellFive, 1⟩, .take 1 ⟨.new buyThree, 0⟩,
    .process 1 ⟨.new buyThree, 0⟩, .respond 1 ⟨.new buyThree, 0⟩ response, .receive 3 0 response]

theorem engine_linearizable_overlapping :
    ∃ response, ∃ s : System (SortedItems Decimal LevelRef),
      Trace (Where System.Next fun s e => s.life.Alone e) (newSystem "BTC-USD")
        (overlappingCalls response) s
      ∧ ∃ order, Linearization MatchingEngine.Handles emptyEngine
          (history (overlappingCalls response)) order
        ∧ order.map (fun x => x.2.1) <+: [.new buyThree, .new sellFive] := by
  have hfresh : FreshIDs ([] ++ [.new buyThree]) := by decide
  obtain ⟨fuel, me, response, hhandle, -⟩ :=
    MatchingEngine.handle_total emptyEngine_initial.sound hfresh
  have h₀ : Trace (Where System.Next fun s e => s.life.Alone e)
      (newSystem "BTC-USD" : System (SortedItems Decimal LevelRef)) [] _ := .nil
  have h := h₀.next (.start 0 0 true) ⟨fun _ => rfl, rfl, .start rfl rfl⟩
    |>.next (.add 0) ⟨trivial, rfl, .add rfl⟩
    |>.next (.go 0 1) ⟨trivial, rfl, .go rfl rfl⟩
    |>.next (.call 2 (.new sellFive) true) ⟨trivial, rfl, .call rfl rfl⟩
    |>.next (.call 3 (.new buyThree) true) ⟨trivial, rfl, .call rfl rfl⟩
    |>.next (.send 3 ⟨.new buyThree, 0⟩) ⟨trivial, rfl, .send rfl (by decide)⟩
    |>.next (.send 2 ⟨.new sellFive, 1⟩) ⟨trivial, rfl, .send rfl (by decide)⟩
    |>.next (.take 1 ⟨.new buyThree, 0⟩) ⟨trivial, rfl, .take rfl rfl⟩
    |>.next (.process 1 ⟨.new buyThree, 0⟩) ⟨trivial, rfl, .process rfl hhandle⟩
    |>.next (.respond 1 ⟨.new buyThree, 0⟩ response) ⟨trivial, rfl, .respond rfl rfl⟩
    |>.next (.receive 3 0 response) ⟨trivial, rfl, .receive rfl rfl⟩
  exact ⟨response, _, h, engine_linearizable h⟩

end TradingBackend
