import TradingBackend.Hub

/-!
# A client's channel is never used once it is closed

What a client and the hub go through with each other, for every client: it is
`fresh` until the hub takes it from `register`, `entering` until it is in
`clients`, `active` until the hub takes it from `unregister`, `leaving` until
the hub has let go of it, and then `gone`. The read pump can subscribe while
the client is still `entering`, and it has ended before the client is
`leaving`; that is why nobody puts the client into a set again.

`Standing` says what holds of a client in each phase. A broadcast may hold
a set of subscribers across a step that unregisters one of them. It is the set
of some topic (`Reach`), so the client is out of it when the broadcast goes on.
-/

namespace TradingBackend.Websocket

variable {κ P : Type}

inductive Phase where
  | fresh
  | entering
  | active
  | leaving
  | gone
deriving DecidableEq

namespace Phase

/-- Where the client's own goroutines are. -/
def Fits (p : Phase) : ClientRole κ P → Prop
  | .absent | .registering => p = .fresh
  | .starting | .reading | .handling _ | .unregistering => p = .entering ∨ p = .active
  | .done => p = .leaving ∨ p = .gone

def attention : Phase → Option Phase
  | entering => some entering
  | leaving => some leaving
  | _ => none

theorem eq_of_attention {p p' : Phase} (h : p.attention = some p') : p = p' := by
  cases p <;> first | exact Option.some.inj h | cases h

inductive Step (c : κ) : Phase → HubEvent κ P → Phase → Prop where
  | enter : Step c fresh (.register c) entering
  | entered : Step c entering (.registered c) active
  | leave : Step c active (.unregister c) leaving
  | left : Step c leaving (.unregistered c) gone
  | other {p e} (h : e ≠ .unregistered c) : Step c p e p

theorem Step.gone {c : κ} {p p' : Phase} {e : HubEvent κ P} (h : Step c p e p')
    (hgone : p = .gone) : p' = .gone := by
  cases h with
  | other => exact hgone
  | _ => cases hgone

theorem Step.unregistered {c : κ} {p p' : Phase} {e : HubEvent κ P} {es : List (HubEvent κ P)}
    (h : Step c p e p') (hbefore : .unregistered c ∈ es → p = .gone)
    (hmem : .unregistered c ∈ es ++ [e]) : p' = .gone := by
  rcases List.mem_append.mp hmem with hmem | hmem
  · exact h.gone (hbefore hmem)
  · obtain rfl := List.mem_singleton.mp hmem
    cases h with
    | left => rfl
    | other hne => exact absurd rfl hne

end Phase

def LoopRole.attends [DecidableEq κ] (c : κ) : LoopRole κ P → Option Phase
  | .registering c' => if c' = c then some .entering else none
  | .unregistering c' => if c' = c then some .leaving else none
  | _ => none

theorem LoopRole.attends_registering_of_ne [DecidableEq κ] {c c' : κ} (h : c' ≠ c) :
    (LoopRole.registering c' : LoopRole κ P).attends c = none :=
  if_neg h

theorem LoopRole.attends_unregistering_of_ne [DecidableEq κ] {c c' : κ} (h : c' ≠ c) :
    (LoopRole.unregistering c' : LoopRole κ P).attends c = none :=
  if_neg h

namespace Channel

variable {ch : Channel κ P} {message : Message κ P}

theorem send_closes : (ch.send message).closes = ch.closes := by
  unfold send
  split
  · rfl
  · split <;> rfl

theorem send_lateSends (h : ch.closes = 0) : (ch.send message).lateSends = ch.lateSends := by
  rw [send, if_neg (by simp [h])]
  split <;> rfl

end Channel

namespace Hub

/-! ## Sets are sets of topics -/

def Reach (h : Hub κ P) : Prop := ∀ c set, c ∈ h.sets set → set ∈ h.subscriptions.map Prod.snd

variable {h h' : Hub κ P} {c c' : κ} {p : Phase} {e : HubEvent κ P}

theorem set_of_lookup {topic : Topic} {set : Nat} {subscriptions : List (Topic × Nat)}
    (hset : subscriptions.lookup topic = some set) : set ∈ subscriptions.map Prod.snd := by
  obtain ⟨before, after, rfl, -⟩ := List.lookup_eq_some_iff.mp hset
  simp

/-- Topics stay, and a set that gets a client is the set of a topic. -/
theorem Reach.grow (hreach : h.Reach) (hsub : h.subscriptions ⊆ h'.subscriptions)
    (hsets : ∀ c set, c ∈ h'.sets set → c ∈ h.sets set ∨ set ∈ h'.subscriptions.map Prod.snd) :
    h'.Reach := by
  intro c set hc
  rcases hsets c set hc with hc | hset
  · exact List.map_subset _ hsub (hreach c set hc)
  · exact hset

theorem Reach.recast (hreach : h.Reach) {next : Option (Cast κ P)} {who : Option GoID} :
    (h.recast next who).Reach := by
  cases who <;> exact hreach

theorem Reach.changeSet (hreach : h.Reach) {topic : Topic} {set' : Nat}
    (hset' : h.subscriptions.lookup topic = some set') (members : Finset κ) :
    { h with sets := Function.update h.sets set' members }.Reach := by
  refine hreach.grow (fun _ => id) fun c set hc => ?_
  by_cases hset : set = set'
  · subst hset
    exact .inr (set_of_lookup hset')
  · exact .inl (by simpa [Function.update_of_ne hset] using hc)

variable [DecidableEq κ]

theorem Reach.subscribe (hreach : h.Reach) {topic : Topic} : (h.subscribe c topic).Reach := by
  unfold Hub.subscribe
  split
  · next hset => exact hreach.changeSet hset _
  · refine hreach.grow (List.subset_cons_self ..) fun c set hc => ?_
    by_cases hset : set = h.nextSet
    · exact .inr (by simp [hset])
    · exact .inl (by simpa [Function.update_of_ne hset] using hc)

theorem Reach.unsubscribe (hreach : h.Reach) {topic : Topic} :
    (h.unsubscribe c topic).Reach := by
  unfold Hub.unsubscribe
  split
  · next hset => exact hreach.changeSet hset _
  · exact hreach

theorem Reach.perform (hreach : h.Reach) {op : ClientOp κ P} : (h.perform c op).Reach := by
  cases op with
  | subscribe => exact hreach.subscribe
  | unsubscribe => exact hreach.unsubscribe
  | send => exact hreach

theorem Reach.unregisterClient (hreach : h.Reach) : (h.unregisterClient c).Reach := by
  unfold Hub.unregisterClient
  split
  · refine hreach.grow (fun _ => id) fun c set hc => ?_
    by_cases hset : set ∈ h.subscriptions.map Prod.snd
    · exact .inr hset
    · exact .inl (by simpa only [if_neg hset] using hc)
  · exact hreach

/-! ## What holds in a phase -/

/-- How a client stands in a phase. Its channel is closed once, when it is gone,
and nothing is sent on it after that. -/
structure Standing (h : Hub κ P) (c : κ) (p : Phase) : Prop where
  role : p.Fits (h.roles c)
  loop : h.loop.attends c = p.attention
  clients : c ∈ h.clients ↔ p = .active ∨ p = .leaving
  sets : p = .fresh ∨ p = .gone → ∀ set, c ∉ h.sets set
  closes : (h.send c).closes = if p = .gone then 1 else 0
  lateSends : (h.send c).lateSends = 0

namespace Standing

theorem new (c : κ) : (new : Hub κ P).Standing c .fresh where
  role := rfl
  loop := rfl
  clients := by simp [Hub.new]
  sets := by simp [Hub.new]
  closes := rfl
  lateSends := rfl

/-- A step that leaves the client and its place in the hub alone. -/
theorem frame (hs : h.Standing c p) (hrole : h'.roles c = h.roles c)
    (hloop : h'.loop.attends c = h.loop.attends c) (hclients : c ∈ h'.clients ↔ c ∈ h.clients)
    (hsets : ∀ set, c ∈ h'.sets set → c ∈ h.sets set) (hsend : h'.send c = h.send c) :
    h'.Standing c p where
  role := hrole ▸ hs.role
  loop := hloop.trans hs.loop
  clients := hclients.trans hs.clients
  sets hp set hmem := hs.sets hp set (hsets set hmem)
  closes := hsend ▸ hs.closes
  lateSends := hsend ▸ hs.lateSends

/-- What is done to a channel other than closing it and sending on it closed. -/
theorem channel (hs : h.Standing c p) {send : κ → Channel κ P}
    (hcloses : (send c).closes = (h.send c).closes)
    (hlate : (send c).lateSends = (h.send c).lateSends) : { h with send := send }.Standing c p :=
  { hs with closes := hcloses.trans hs.closes, lateSends := hlate.trans hs.lateSends }

theorem receive (hs : h.Standing c p) :
    { h with send := Function.update h.send c' (h.send c').receive }.Standing c p := by
  by_cases heq : c = c'
  · subst heq
    exact hs.channel (by simp [Channel.receive]) (by simp [Channel.receive])
  · exact hs.channel (by simp [heq]) (by simp [heq])

theorem sends (hs : h.Standing c p) {send : κ → Channel κ P}
    (hsend : send c = h.send c ∨ p ≠ .gone ∧ ∃ message, send c = (h.send c).send message) :
    { h with send := send }.Standing c p := by
  rcases hsend with hsend | ⟨hp, message, hsend⟩
  · exact hs.channel (by rw [hsend]) (by rw [hsend])
  · have hopen : (h.send c).closes = 0 := by rw [hs.closes, if_neg hp]
    exact hs.channel (by rw [hsend, Channel.send_closes])
      (by rw [hsend, Channel.send_lateSends hopen])

theorem sendMessage (hs : h.Standing c p) {message : Message κ P} (hc : c' = c → p ≠ .gone) :
    (h.sendMessage c' message).Standing c p := by
  refine hs.sends ?_
  by_cases heq : c' = c
  · subst heq
    exact .inr ⟨hc rfl, message, Function.update_self ..⟩
  · exact .inl (Function.update_of_ne (Ne.symm heq) ..)

/-- A client is in a set only while its channel is open. -/
theorem deliver (hs : h.Standing c p) {set : Nat} {message : Message κ P} :
    (h.deliver set message).Standing c p := by
  refine hs.sends ?_
  by_cases hmem : c ∈ h.sets set
  · exact .inr ⟨fun hp => hs.sets (.inr hp) set hmem, message, if_pos hmem⟩
  · exact .inl (if_neg hmem)

theorem move (hs : h.Standing c p) {role : ClientRole κ P} (hc : c' = c → p.Fits role) :
    (h.move c' role).Standing c p := by
  refine { hs with role := ?_ }
  by_cases heq : c' = c
  · subst heq
    simpa [Hub.move] using hc rfl
  · simpa [Hub.move, Function.update_of_ne (Ne.symm heq)] using hs.role

theorem turn (hs : h.Standing c p) {loop loop' : LoopRole κ P} (hloop : h.loop = loop)
    (hsame : loop'.attends c = loop.attends c) : { h with loop := loop' }.Standing c p :=
  { hs with loop := hsame.trans (hloop ▸ hs.loop) }

theorem phase_eq (hs : h.Standing c p) {loop : LoopRole κ P} {p' : Phase} (hloop : h.loop = loop)
    (hattends : loop.attends c = some p') : p = p' :=
  Phase.eq_of_attention (hs.loop.symm.trans (hloop ▸ hattends))

theorem fits (hs : h.Standing c p) {role : ClientRole κ P} (hrole : h.roles c' = role)
    (heq : c' = c) : p.Fits role :=
  hrole ▸ heq ▸ hs.role

/-- A client gets into a set only if it is the one that subscribes. -/
theorem subscribe (hs : h.Standing c p) {topic : Topic} (hc : c' = c → p ≠ .fresh ∧ p ≠ .gone) :
    (h.subscribe c' topic).Standing c p := by
  have hother : p = .fresh ∨ p = .gone → c ≠ c' := by
    rintro (hp | hp) rfl
    · exact (hc rfl).1 hp
    · exact (hc rfl).2 hp
  unfold Hub.subscribe
  split
  · rename_i set' _
    refine { hs with sets := fun hp set => ?_ }
    by_cases hset : set = set'
    · subst hset
      simpa [hother hp] using hs.sets hp set
    · simpa [Function.update_of_ne hset] using hs.sets hp set
  · refine { hs with sets := fun hp set => ?_ }
    by_cases hset : set = h.nextSet
    · subst hset
      simpa using hother hp
    · simpa [Function.update_of_ne hset] using hs.sets hp set

theorem unsubscribe (hs : h.Standing c p) {topic : Topic} :
    (h.unsubscribe c' topic).Standing c p := by
  unfold Hub.unsubscribe
  split
  · rename_i set' _
    refine { hs with sets := fun hp set => ?_ }
    by_cases hset : set = set'
    · subst hset
      simpa using fun _ => hs.sets hp set
    · simpa [Function.update_of_ne hset] using hs.sets hp set
  · exact hs

theorem perform (hs : h.Standing c p) {op : ClientOp κ P}
    (hc : c' = c → p = .entering ∨ p = .active) : (h.perform c' op).Standing c p := by
  have hlive : c' = c → p ≠ .fresh ∧ p ≠ .gone := by
    intro heq
    rcases hc heq with rfl | rfl <;> decide
  cases op with
  | subscribe => exact { hs.subscribe hlive with }
  | unsubscribe => exact { hs.unsubscribe with }
  | send => exact hs.sendMessage (fun heq => (hlive heq).2)

/-- A broadcast of `Run` or of a goroutine of the timer goes on. -/
theorem recast (hs : h.Standing c p) {who : Option GoID} {next : Option (Cast κ P)}
    (hwho : who = none → h.loop.attends c = none) : (h.recast next who).Standing c p := by
  cases who with
  | none =>
      refine hs.turn rfl (Eq.trans ?_ (hwho rfl).symm)
      cases next <;> rfl
  | some g => exact { hs with }

theorem register (hs : h.Standing c .fresh) :
    ({ h with loop := .registering c }.move c .starting).Standing c .entering where
  role := by simp [Hub.move, Phase.Fits]
  loop := if_pos rfl
  clients := by simpa [Hub.move] using hs.clients
  sets := by simp
  closes := hs.closes
  lateSends := hs.lateSends

/-- The section in which the client gets into `clients`. -/
theorem registerClient (hs : h.Standing c .entering) :
    { h with clients := insert c h.clients, loop := .selecting }.Standing c .active where
  role := by
    have hrole := hs.role
    revert hrole
    cases h.roles c <;> simp [Phase.Fits]
  loop := rfl
  clients := by simp
  sets := by simp
  closes := hs.closes
  lateSends := hs.lateSends

theorem unregister (hs : h.Standing c .active) :
    ({ h with loop := .unregistering c }.move c .done).Standing c .leaving where
  role := by simp [Hub.move, Phase.Fits]
  loop := if_pos rfl
  clients := by simpa [Hub.move] using hs.clients
  sets := by simp
  closes := hs.closes
  lateSends := hs.lateSends

theorem unregisterClient (hs : h.Standing c .leaving) (hreach : h.Reach) :
    { h.unregisterClient c with loop := .selecting }.Standing c .gone := by
  have hmem : c ∈ h.clients := hs.clients.mpr (.inr rfl)
  rw [Hub.unregisterClient, if_pos hmem]
  exact
    { role := by
        have hrole := hs.role
        revert hrole
        cases h.roles c <;> simp [Phase.Fits]
      loop := rfl
      clients := by simp
      sets := fun _ set => by
        by_cases hset : set ∈ h.subscriptions.map Prod.snd
        · simp only [if_pos hset, Finset.notMem_erase, not_false_eq_true]
        · simpa only [if_neg hset] using fun hc => hset (hreach c set hc)
      closes := by simp [Channel.close, hs.closes]
      lateSends := by simpa [Channel.close] using hs.lateSends }

theorem unregisterClient_of_ne (hs : h.Standing c p) (hne : c' ≠ c) :
    (h.unregisterClient c').Standing c p := by
  unfold Hub.unregisterClient
  split
  · refine hs.frame rfl rfl ?_ ?_ (Function.update_of_ne hne.symm ..)
    · simp [hne.symm]
    · intro set hmem
      by_cases hset : set ∈ h.subscriptions.map Prod.snd
      · exact Finset.mem_of_mem_erase (by simpa only [if_pos hset] using hmem)
      · simpa only [if_neg hset] using hmem
  · exact hs

end Standing

/-! ## The steps -/

theorem unregisterClient_loop : (h.unregisterClient c).loop = h.loop := by
  unfold unregisterClient
  split <;> rfl

theorem attends_of_casting {who : Option GoID} {cast : Cast κ P} (hcast : h.casting who = some cast)
    (hwho : who = none) : h.loop.attends c = none := by
  subst hwho
  cases hloop : h.loop with
  | casting => rfl
  | _ => simp [casting, hloop] at hcast

/-- Every step keeps what holds of a client, in the phase that it brings the
client to. -/
theorem Step.standing (hstep : h.Step e h') (hreach : h.Reach) (hs : h.Standing c p) :
    ∃ p', p.Step c e p' ∧ h'.Standing c p' := by
  cases hstep with
  | accept hc' | read hc' | handled hc' | hangUp hc' =>
      have hfits := hs.fits hc'
      exact ⟨p, .other nofun, hs.move hfits⟩
  | start hc' =>
      have hfits := hs.fits hc'
      refine ⟨p, .other nofun, (hs.sendMessage ?_).move hfits⟩
      intro heq hp
      rcases hfits heq with rfl | rfl <;> cases hp
  | perform hc' =>
      have hfits := hs.fits hc'
      exact ⟨p, .other nofun, (hs.perform hfits).move hfits⟩
  | @register c' hloop hc' =>
      by_cases heq : c' = c
      · subst heq
        obtain rfl : p = .fresh := hs.fits hc' rfl
        exact ⟨.entering, .enter, hs.register⟩
      · exact ⟨p, .other nofun, (hs.turn hloop (LoopRole.attends_registering_of_ne heq)).move
          fun h => absurd h heq⟩
  | @registered c' hloop =>
      by_cases heq : c' = c
      · subst heq
        obtain rfl : p = .entering := hs.phase_eq hloop (if_pos rfl)
        exact ⟨.active, .entered, hs.registerClient⟩
      · have hattends : (LoopRole.selecting : LoopRole κ P).attends c = h.loop.attends c := by
          rw [hloop, LoopRole.attends_registering_of_ne heq]
          rfl
        exact ⟨p, .other nofun, hs.frame rfl hattends (by simp [Ne.symm heq]) (fun _ => id) rfl⟩
  | @unregister c' hloop hc' =>
      by_cases heq : c' = c
      · subst heq
        obtain rfl : p = .active := by
          rcases hs.fits hc' rfl with rfl | rfl
          · have hattends := hs.loop
            rw [hloop] at hattends
            cases hattends
          · rfl
        exact ⟨.leaving, .leave, hs.unregister⟩
      · exact ⟨p, .other nofun, (hs.turn hloop (LoopRole.attends_unregistering_of_ne heq)).move
          fun h => absurd h heq⟩
  | @unregistered c' hloop =>
      by_cases heq : c' = c
      · subst heq
        obtain rfl : p = .leaving := hs.phase_eq hloop (if_pos rfl)
        exact ⟨.gone, .left, hs.unregisterClient hreach⟩
      · exact ⟨p, .other (by simpa using heq), (hs.unregisterClient_of_ne heq).turn
          (unregisterClient_loop.trans hloop) (LoopRole.attends_unregistering_of_ne heq).symm⟩
  | receive => exact ⟨p, .other nofun, hs.receive⟩
  | delta hloop => exact ⟨p, .other nofun, hs.turn hloop rfl⟩
  | batched hloop => exact ⟨p, .other nofun, { hs.turn hloop rfl with }⟩
  | armed hloop => exact ⟨p, .other nofun, { hs.turn hloop rfl with }⟩
  | trade hloop | order hloop => exact ⟨p, .other nofun, hs.turn hloop rfl⟩
  | flush | flushNothing | flushed => exact ⟨p, .other nofun, { hs with }⟩
  | fetch hwho | check hwho => exact ⟨p, .other nofun, hs.recast (attends_of_casting hwho)⟩
  | deliver hwho => exact ⟨p, .other nofun, hs.deliver.recast (attends_of_casting hwho)⟩

theorem Step.reach (hstep : h.Step e h') (hreach : h.Reach) : h'.Reach := by
  cases hstep with
  | perform => exact hreach.perform
  | unregistered => exact hreach.unregisterClient
  | fetch | check => exact hreach.recast
  | @deliver _ set message => exact Reach.recast (h := h.deliver set message) hreach
  | _ => exact hreach

/-! ## Runs -/

/-- In every run, every client is in some phase, and one that has been
unregistered is gone. -/
theorem run_standing {es : List (HubEvent κ P)} (hrun : Trace Step new es h) (c : κ) :
    h.Reach ∧ ∃ p, h.Standing c p ∧ (.unregistered c ∈ es → p = .gone) := by
  refine hrun.invariant ?_ ?_
    (P := fun es h => Reach h ∧ ∃ p, h.Standing c p ∧ (.unregistered c ∈ es → p = .gone))
  · exact ⟨by simp [Reach, new], .fresh, Standing.new c, by simp⟩
  · rintro es h e h' ⟨hreach, p, hs, hgone⟩ hstep
    obtain ⟨p', hp', hs'⟩ := hstep.standing hreach hs
    exact ⟨hstep.reach hreach, p', hs', hp'.unregistered hgone⟩

/-- Whatever the interleaving, a client's channel is closed at most once and
nothing is sent on it after that. Once unregistered, the client is neither in
`clients` nor in the set of a topic. -/
theorem channel_safe {es : List (HubEvent κ P)} (hrun : Trace Step new es h) (c : κ) :
    (h.send c).closes ≤ 1 ∧ (h.send c).lateSends = 0 ∧
      (.unregistered c ∈ es →
        c ∉ h.clients ∧
          ∀ topic set, h.subscriptions.lookup topic = some set → c ∉ h.sets set) := by
  obtain ⟨-, p, hs, hgone⟩ := run_standing hrun c
  refine ⟨?_, hs.lateSends, fun hmem => ?_⟩
  · rw [hs.closes]
    split <;> decide
  · obtain rfl := hgone hmem
    exact ⟨by simp [hs.clients], fun _ set _ => hs.sets (.inr rfl) set⟩

/-- A subscriber leaves while a goroutine of the timer holds the set it is
in. -/
def lateFlush : List (HubEvent Nat Nat) :=
  [.accept 0, .register 0, .registered 0, .start 0,
    .read 0 (some ⟨"subscribe", topicOrderbookDeltas⟩) none, .perform 0, .perform 0, .handled 0,
    .delta 7, .batched 0, .flush 0, .fetch (some 0), .check (some 0),
    .hangUp 0, .unregister 0, .unregistered 0, .deliver (some 0), .flushed 0]

theorem lateFlush_run :
    ∃ h, Trace Step (new : Hub Nat Nat) lateFlush h ∧ (h.send 0).closes = 1 := by
  have h₀ : Trace Step (new : Hub Nat Nat) [] new := .nil
  have hrun := h₀.next (.accept 0) (.accept rfl)
    |>.next (.register 0) (.register rfl rfl)
    |>.next (.registered 0) (.registered rfl)
    |>.next (.start 0) (.start rfl)
    |>.next (.read 0 (some ⟨"subscribe", topicOrderbookDeltas⟩) none) (.read rfl)
    |>.next (.perform 0) (.perform rfl)
    |>.next (.perform 0) (.perform rfl)
    |>.next (.handled 0) (.handled rfl)
    |>.next (.delta 7) (.delta rfl)
    |>.next (.batched 0) (.armed rfl rfl rfl rfl)
    |>.next (.flush 0) (.flush rfl rfl nofun)
    |>.next (.fetch (some 0)) (.fetch rfl)
    |>.next (.check (some 0)) (.check rfl)
    |>.next (.hangUp 0) (.hangUp rfl)
    |>.next (.unregister 0) (.unregister rfl rfl)
    |>.next (.unregistered 0) (.unregistered rfl)
    |>.next (.deliver (some 0)) (.deliver rfl)
    |>.next (.flushed 0) (.flushed rfl)
  exact ⟨_, hrun, rfl⟩

theorem channel_safe_late_flush :
    ∃ h, Trace Step (new : Hub Nat Nat) lateFlush h ∧ (h.send 0).closes = 1 ∧
      (h.send 0).lateSends = 0 ∧ 0 ∉ h.clients := by
  obtain ⟨h, hrun, hclosed⟩ := lateFlush_run
  obtain ⟨-, hlate, hgone⟩ := channel_safe hrun 0
  exact ⟨h, hrun, hclosed, hlate, (hgone (by simp [lateFlush])).1⟩

end Hub

end TradingBackend.Websocket
