import TradingBackend.Priority

/-!
# What the engine tells

The effects of one request. In the course of matching the engine publishes
only the removals of filled orders, and by then there is nothing left of them:
such an event says that a size went from 0 to 0 (`Effect.Idle`). A partial fill
of a resting order is not told at all. When matching is over the engine
publishes that the order rests (`rested`) and calls its handlers
(`announced`).

`Told` is `Handled` with the effects; the feeds of the engine are functions of
them.
-/

namespace TradingBackend

/-- An event of a size that did not change. -/
def Effect.Idle (x : Effect) : Prop :=
  ∃ event, x = .orderbookChange event ∧ event.newSize = event.oldSize

variable {T : Type}

namespace MatchingEngine

/-- Only idle events were published on the way to `me₁`. -/
def Quiet (me me₁ : MatchingEngine T) : Prop :=
  ∃ idle, me₁.effects = me.effects ++ idle ∧ ∀ x ∈ idle, x.Idle

theorem Quiet.refl (me : MatchingEngine T) : Quiet me me := ⟨[], by simp, by simp⟩

theorem Quiet.emit_idle {me me₁ me' : MatchingEngine T} (h : Quiet me me₁) {x : Effect}
    (hx : x.Idle) (heffects : me'.effects = me₁.effects ++ [x]) : Quiet me me' := by
  obtain ⟨idle, hidle, hall⟩ := h
  refine ⟨idle ++ [x], by rw [heffects, hidle, List.append_assoc], ?_⟩
  exact List.forall_mem_append.mpr ⟨hall, List.forall_mem_singleton.mpr hx⟩

def rested (me : MatchingEngine T) (a : OrderRef) : List Effect :=
  let o := me.orderBook.orderAt a
  if o.Rests then
    .orderbookChange ⟨me.orderBook.instrument, o.feedSide, .add, o.price, o.remainingQuantity, 0⟩
      :: if me.wsOrderbookHandler then
        [.wsOrderbook o.instrument o.feedSide o.price o.remainingQuantity] else []
  else []

def announcedTrades (me : MatchingEngine T) (trades : List Trade) : List Effect :=
  (if me.tradeHandler then trades.map .tradeHandler else []) ++ trades.map .newTrade
    ++ if me.wsTradeHandler then trades.map .wsTrade else []

def announced (me : MatchingEngine T) (a : OrderRef) (trades : List Trade) : List Effect :=
  me.announcedTrades trades
    ++ if me.wsOrderUpdateHandler then [.wsOrderUpdate (me.orderBook.orderAt a)] else []

theorem announce_effects (me : MatchingEngine T) (a : OrderRef) (trades : List Trade) :
    (me.announce a trades).effects = me.effects ++ me.announced a trades := by
  cases htrade : me.tradeHandler <;> cases hws : me.wsTradeHandler <;>
    cases hupdate : me.wsOrderUpdateHandler <;>
    simp [announce, announced, announcedTrades, emit, htrade, hws, hupdate]

end MatchingEngine

variable [OrderedTree T Decimal LevelRef]

namespace MatchingEngine

section

variable {me me' me₁ : MatchingEngine T} {a : OrderRef} {e : Element} {fuel : Nat}
  {trades : List Trade} {s : MatchingEngine T × List Trade} {l : LevelRef} {scan : LevelScan T}

/-! ## In the course of matching -/

/-- A trade: the removal of a filled order is told when nothing is left of it. -/
theorem Executes.quiet (h : Executes me a me₁ e) (hready : me.orderBook.Ready a)
    (hquiet : Quiet me me₁) : Quiet me (me₁.afterTrade a e) := by
  obtain ⟨hu, rest, hel⟩ := h.first hready
  obtain ⟨l, he⟩ := OrderBook.mem_elements.mp (hel ▸ List.mem_cons_self ..)
  by_cases hf : me₁.Consumed a e
  · rw [afterTrade_filled hu.ready he hf]
    refine hquiet.emit_idle ⟨_, rfl, ?_⟩ rfl
    have hdet := OrderBook.detach_detached (hu.ready.traded he).wf.layout
      ((me₁.orderBook.sameShape_traded a l e).holds_iff.mpr he)
    dsimp only
    rw [hdet.orderAt]
    exact (Order.isFilled_iff_remaining.mp hf).symm
  · rw [afterTrade_partly hu.ready he hf]
    exact hquiet

/-! ## When matching is over -/

theorem restOrder_effects (me : MatchingEngine T) (a : OrderRef) :
    (me.restOrder a).effects = me.effects ++ me.rested a := by
  by_cases h : (me.orderBook.orderAt a).Rests
  · have h' : (me.orderBook.orderAt a).type = .limit ∧ (me.orderBook.orderAt a).canBeFilled
      ∧ ¬(me.orderBook.orderAt a).isFilled := h
    rw [restOrder, rested, if_pos h, if_pos h']
    cases me.wsOrderbookHandler <;>
      simp [publishOrderbookChange, emit, OrderBook.addOrder_orderAt,
        OrderBook.addOrder_instrument]
  · rw [rested, if_neg h, List.append_nil]
    exact congrArg MatchingEngine.effects (if_neg h)

/-- The engine tells nothing that the end of the command does not show. -/
theorem finished_effects (me : MatchingEngine T) (a : OrderRef) (trades : List Trade) :
    let me' := (me.restOrder a).announce a trades
    me'.effects = me.effects ++ me'.rested a ++ me'.announced a trades := by
  obtain ⟨effects, hrest⟩ := me.restOrder_eq a
  obtain ⟨effects', hann⟩ := (me.restOrder a).announce_eq a trades
  have horderAt : (me.restOrder a).orderBook.orderAt = me.orderBook.orderAt := by
    rw [hrest]
    dsimp only
    split_ifs
    · exact OrderBook.addOrder_orderAt ..
    · rfl
  have hinstrument : (me.restOrder a).orderBook.instrument = me.orderBook.instrument := by
    rw [hrest]
    dsimp only
    split_ifs
    · exact OrderBook.addOrder_instrument ..
    · rfl
  have hws : (me.restOrder a).wsOrderbookHandler = me.wsOrderbookHandler := by rw [hrest]
  have hrested : (me.restOrder a).rested a = me.rested a := by
    simp only [rested, horderAt, hinstrument, hws]
  dsimp only
  rw [announce_effects, restOrder_effects, hann, ← hrested]
  rfl

theorem matchOrder_effects (hready : me.orderBook.Ready a)
    (hvalid : (me.orderBook.orderAt a).isValid = true)
    (h : me.matchOrder fuel a = some (me', trades)) :
    ∃ idle, (∀ x ∈ idle, x.Idle) ∧
      me'.effects = me.effects ++ idle ++ me'.rested a ++ me'.announced a trades := by
  obtain ⟨me₁, ⟨idle, hidle, hall⟩, rfl⟩ := matching_rule (P := fun me₁ _ => Quiet me me₁) hready
    hvalid (fun hexec => hexec.quiet hready) id (Quiet.refl me) h
  exact ⟨idle, hall, hidle ▸ finished_effects me₁ a trades⟩

/-! ## One request -/

def cancelled (me : MatchingEngine T) (e : Element) : Effect :=
  let o := me.orderBook.orderAt e.value
  .orderbookChange ⟨me.orderBook.instrument, o.feedSide, .remove, o.price, 0, o.remainingQuantity⟩

/-- `Handled`, with the effects: of the matching itself nothing is told that
changes a size (`idle`), and what follows it says that the order rests and
announces the trades. -/
inductive Told (me me' : MatchingEngine T) : Request → List Trade → Prop where
  | entered {o trades idle} (hvalid : o.isValid = true)
      (h : Entered (me.alloc o) me' me.orderBook.nextOrder trades) (hidle : ∀ x ∈ idle, x.Idle)
      (heffects : me'.effects = me.effects ++ idle ++ me'.rested me.orderBook.nextOrder
        ++ me'.announced me.orderBook.nextOrder trades) : Told me me' (.new o) trades
  | rejected {o} (hvalid : ¬o.isValid = true)
      (h : me' = (me.alloc o).reject me.orderBook.nextOrder) : Told me me' (.new o) []
  | withdrawn {b l e} (he : me.orderBook.Holds b l e) (h : Withdrawn me me' e)
      (heffects : me'.effects = me.effects ++ [me.cancelled e]) :
      Told me me' (.cancel (me.orderBook.orderAt e.value).id) []
  | notFound {orderID} (hid : orderID ∉ me.orderBook.orders) (h : me' = me) :
      Told me me' (.cancel orderID) []

variable {request : Request} {requests : List Request}

theorem Told.handled (h : Told me me' request trades) : Handled me me' request trades := by
  cases h with
  | entered hvalid h => exact .entered hvalid h
  | rejected hvalid h => exact .rejected hvalid h
  | withdrawn he h => exact .withdrawn he h
  | notFound hid h => exact .notFound hid h

theorem cancel_effects (h : me.orderBook.WF) {b : Bool} (he : me.orderBook.Holds b l e)
    {response : CommandResponse}
    (hstep : me.handle fuel (.cancel (me.orderBook.orderAt e.value).id) = some (me', response)) :
    me'.effects = me.effects ++ [me.cancelled e] := by
  have hdet := OrderBook.detach_detached h.layout he
  have hcancel : me.orderBook.cancelOrder (me.orderBook.orderAt e.value).id =
      ((me.orderBook.detach (me.orderBook.orderAt e.value).id ⟨l, e⟩).setOrder e.value
        { me.orderBook.orderAt e.value with status := .cancelled }, some e.value) := by
    simp only [OrderBook.cancelOrder, h.lookup he, hdet.orderAt]
  rw [handle, processCommand, hcancel] at hstep
  obtain ⟨rfl, -⟩ := Prod.mk.injEq .. |>.mp (Option.some.inj hstep)
  simp only [publishOrderbookChange, emit, cancelled, OrderBook.setOrder, Function.update_self]
  rw [OrderBook.detach_instrument]
  rfl

theorem matchOrder_of_handle {o : Order} {response : CommandResponse}
    (hstep : me.handle fuel (.new o) = some (me', response)) :
    (me.alloc o).matchOrder fuel me.orderBook.nextOrder = some (me', response.trades) := by
  rw [handle, processCommand] at hstep
  cases hrun : (me.alloc o).matchOrder fuel (me.orderBook.newOrder o).2 with
  | none => simp only [hrun] at hstep; cases hstep
  | some r =>
      simp only [hrun] at hstep
      cases hstep
      exact hrun

theorem handle_told (h : me.Sound requests) (hfresh : FreshIDs (requests ++ [request]))
    {response : CommandResponse} (hstep : me.handle fuel request = some (me', response)) :
    Told me me' request response.trades := by
  have hh := handle_cases h hfresh hstep
  generalize htrades : response.trades = trades at hh ⊢
  cases hh with
  | @entered o trades hvalid hent =>
      obtain ⟨idle, hidle, heffects⟩ := matchOrder_effects (h.ready hfresh)
        ((alloc_self me o).symm ▸ hvalid) (matchOrder_of_handle hstep)
      exact .entered hvalid hent hidle (htrades ▸ heffects)
  | rejected hvalid heq => exact .rejected hvalid heq
  | withdrawn he hwith => exact .withdrawn he hwith (cancel_effects h.wf he hstep)
  | notFound hid heq => exact .notFound hid heq

/-! ## Runs -/

variable {me₀ : MatchingEngine T}

theorem Handled.handlers (h : Handled me me' request trades) :
    me'.wsOrderbookHandler = me.wsOrderbookHandler
      ∧ me'.wsOrderUpdateHandler = me.wsOrderUpdateHandler := by
  cases h with
  | entered _ h => exact ⟨h.frame.wsOrderbookHandler, h.frame.wsOrderUpdateHandler⟩
  | rejected _ h => exact h ▸ ⟨rfl, rfl⟩
  | withdrawn _ h => exact ⟨h.frame.wsOrderbookHandler, h.frame.wsOrderUpdateHandler⟩
  | notFound _ h => exact h ▸ ⟨rfl, rfl⟩

theorem Run.handlers (h₀ : me₀.Initial) (h : Run me₀ requests me trades)
    (hfresh : FreshIDs requests) : me.wsOrderbookHandler = me₀.wsOrderbookHandler
      ∧ me.wsOrderUpdateHandler = me₀.wsOrderUpdateHandler := by
  refine (h.induct h₀ (fun _ => True) (P := fun _ me _ =>
    me.wsOrderbookHandler = me₀.wsOrderbookHandler
      ∧ me.wsOrderUpdateHandler = me₀.wsOrderUpdateHandler) ⟨rfl, rfl⟩ ?_ hfresh
    fun _ _ => trivial).2
  intro _ _ _ _ _ _ _ _ _ hh hbefore
  exact ⟨hh.handlers.1.trans hbefore.1, hh.handlers.2.trans hbefore.2⟩

/-- Where a request keeps a property exactly if it is `ok`, the property holds
after every request of a run exactly if they all are. -/
theorem Run.kept_iff {P : MatchingEngine T → Prop} {ok : MatchingEngine T → Request → Prop}
    (h₀ : me₀.Initial) (hP : P me₀)
    (hkept : ∀ {requests me trades request me' trades'}, Run me₀ requests me trades →
      FreshIDs (requests ++ [request]) → me.Sound requests → Told me me' request trades' →
      P me → (P me' ↔ ok me request))
    (h : Run me₀ requests me trades) (hfresh : FreshIDs requests) :
    (∀ requests' me' trades', requests' <+: requests → Run me₀ requests' me' trades' → P me') ↔
      RunWith ok me₀ requests me trades := by
  induction h with
  | nil =>
      refine iff_of_true (fun requests' me' trades' hinit hrun => ?_) .nil
      obtain rfl := List.prefix_nil.mp hinit
      obtain ⟨rfl, -⟩ := Run.nil.det hrun
      exact hP
  | @snoc requests me trades request fuel me' response h hstep ih =>
      have hsound := h.sound h₀ hfresh.of_append
      have hkept' := hkept h hfresh hsound (handle_told hsound hfresh hstep)
      have hbefore := ih hfresh.of_append
      constructor
      · intro hall
        refine (hbefore.mp fun _ _ _ hinit => hall _ _ _ (hinit.trans ?_)).snoc hstep ?_
        · exact List.prefix_append ..
        · exact (hkept' (hall _ _ _ (List.prefix_append ..) h)).mp
            (hall _ _ _ (List.prefix_refl _) (h.snoc hstep))
      · intro hwith requests₁ me₁ trades₁ hinit hrun
        obtain ⟨me₂, trades₂, hwith', hok⟩ := hwith.snoc_inv
        obtain ⟨rfl, rfl⟩ := h.det hwith'.run
        have hall := hbefore.mpr hwith'
        rcases List.prefix_concat_iff.mp hinit with rfl | hinit
        · obtain ⟨rfl, -⟩ := hrun.det (h.snoc hstep)
          exact (hkept' (hall _ _ _ (List.prefix_refl _) h)).mpr hok
        · exact hall _ _ _ hinit hrun

end

end MatchingEngine

end TradingBackend
