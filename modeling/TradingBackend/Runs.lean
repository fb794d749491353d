import TradingBackend.Commands

/-!
# Runs

A run is a sequence of requests, as the clients of an engine give them:
a `NEW` command with an order the client has just made, or a `CANCEL`
command. The `r`-th order submitted in a run is made at pointer `r`, so
pointers name the orders of a run and their order is the order of the
commands.

`Handled` is what one request can do, `Run.induct` the induction rule:
an invariant is proved by going through the four cases of `Handled`,
with the facts that hold in every run (`Sound`) at hand.
-/

namespace TradingBackend

/-- A command with its order. -/
inductive Request where
  | new (order : Order)
  | cancel (orderID : UUID)
deriving DecidableEq, Repr

def submitted (requests : List Request) : List Order :=
  requests.filterMap fun
    | .new order => some order
    | .cancel _ => none

/-- No two submitted orders have the same id. -/
def FreshIDs (requests : List Request) : Prop :=
  ((submitted requests).map Order.id).Nodup

instance (requests : List Request) : Decidable (FreshIDs requests) :=
  inferInstanceAs (Decidable (List.Nodup _))

theorem submitted_append_new (requests : List Request) (o : Order) :
    submitted (requests ++ [.new o]) = submitted requests ++ [o] := by
  simp [submitted]

theorem submitted_append_cancel (requests : List Request) (orderID : UUID) :
    submitted (requests ++ [.cancel orderID]) = submitted requests := by
  simp [submitted]

theorem FreshIDs.of_append_left {requests requests' : List Request}
    (h : FreshIDs (requests ++ requests')) : FreshIDs requests := by
  rw [FreshIDs, submitted, List.filterMap_append, List.map_append] at h
  exact List.Nodup.of_append_left h

theorem FreshIDs.of_append {requests : List Request} {r : Request}
    (h : FreshIDs (requests ++ [r])) : FreshIDs requests :=
  h.of_append_left

/-- The fields of an order that no command writes. -/
def Order.terms (o : Order) : Order := { o with filledQuantity := 0, status := .unset }

theorem Order.eq_of_terms {β : Type} (f : Order → β) (hf : ∀ o, f o.terms = f o) {o o' : Order}
    (h : o.terms = o'.terms) : f o = f o' := by
  rw [← hf o, h, hf o']

variable {T : Type}

namespace MatchingEngine

/-- The engine after a client made the order of a `NEW` command. -/
def alloc (me : MatchingEngine T) (o : Order) : MatchingEngine T :=
  { me with orderBook := (me.orderBook.newOrder o).1 }

theorem alloc_self (me : MatchingEngine T) (o : Order) :
    (me.alloc o).orderBook.orderAt me.orderBook.nextOrder = o :=
  Function.update_self ..

theorem alloc_of_lt {me : MatchingEngine T} {o : Order} {r : OrderRef}
    (hr : r < me.orderBook.nextOrder) :
    (me.alloc o).orderBook.orderAt r = me.orderBook.orderAt r :=
  Function.update_of_ne (Nat.ne_of_lt hr) ..

variable [OrderedTree T Decimal LevelRef]

theorem sameShape_alloc (me : MatchingEngine T) (o : Order) :
    OrderBook.SameShape me.orderBook (me.alloc o).orderBook :=
  OrderBook.sameShape_newOrder me.orderBook o

def handle (fuel : Nat) (me : MatchingEngine T) :
    Request → Option (MatchingEngine T × CommandResponse)
  | .new o => (me.alloc o).processCommand fuel (.new (me.orderBook.newOrder o).2)
  | .cancel orderID => me.processCommand fuel (.cancel orderID)

/-- The engine goes from `me₀` to `me` by the requests and makes the
trades. -/
inductive Run (me₀ : MatchingEngine T) :
    List Request → MatchingEngine T → List Trade → Prop where
  | nil : Run me₀ [] me₀ []
  | snoc {requests me trades request fuel me' response} (h : Run me₀ requests me trades)
      (hstep : me.handle fuel request = some (me', response)) :
      Run me₀ (requests ++ [request]) me' (trades ++ response.trades)

def Initial (me₀ : MatchingEngine T) : Prop :=
  ∃ instrument, me₀.orderBook = newOrderBook instrument

/-- What one request can do. Facts about runs are proved by cases on this, not
on `processCommand`. -/
inductive Handled (me me' : MatchingEngine T) : Request → List Trade → Prop where
  | entered {o trades} (hvalid : o.isValid = true)
      (h : Entered (me.alloc o) me' me.orderBook.nextOrder trades) : Handled me me' (.new o) trades
  | rejected {o} (hvalid : ¬o.isValid = true)
      (h : me' = (me.alloc o).reject me.orderBook.nextOrder) : Handled me me' (.new o) []
  | withdrawn {b l e} (he : me.orderBook.Holds b l e) (h : Withdrawn me me' e) :
      Handled me me' (.cancel (me.orderBook.orderAt e.value).id) []
  | notFound {orderID} (hid : orderID ∉ me.orderBook.orders) (h : me' = me) :
      Handled me me' (.cancel orderID) []

/-- What holds in every run: pointers are given out in the order of the
requests, so the order behind a pointer is the one that was submitted, up to
what it has filled. -/
structure Sound (me : MatchingEngine T) (requests : List Request) : Prop where
  wf : me.orderBook.WF
  nextOrder : me.orderBook.nextOrder = (submitted requests).length
  terms : ∀ (r : Nat) (o : Order), (submitted requests)[r]? = some o →
    (me.orderBook.orderAt r).terms = o.terms

section

variable {me me' : MatchingEngine T} {requests : List Request} {request : Request}
  {trades : List Trade} {o : Order}

/-- Every pointer of a run is the pointer of a submitted order. -/
theorem Sound.exists_submitted (h : me.Sound requests) {r : OrderRef}
    (hr : r < me.orderBook.nextOrder) :
    ∃ o, (submitted requests)[r]? = some o ∧ (me.orderBook.orderAt r).terms = o.terms := by
  rw [h.nextOrder] at hr
  exact ⟨_, List.getElem?_eq_getElem hr, h.terms r _ (List.getElem?_eq_getElem hr)⟩

theorem Sound.id_ne (h : me.Sound requests) (hfresh : FreshIDs (requests ++ [.new o]))
    {r : OrderRef} (hr : r < me.orderBook.nextOrder) : (me.orderBook.orderAt r).id ≠ o.id := by
  obtain ⟨o', ho', hterms⟩ := h.exists_submitted hr
  rw [FreshIDs, submitted_append_new, List.map_append, List.nodup_append] at hfresh
  rw [Order.eq_of_terms Order.id (fun _ => rfl) hterms]
  exact hfresh.2.2 _ (List.mem_map_of_mem (List.mem_of_getElem? ho')) _ (List.mem_singleton_self _)

theorem Sound.id_injective (h : me.Sound requests) (hfresh : FreshIDs requests) {r r' : OrderRef}
    (hr : r < me.orderBook.nextOrder) (hr' : r' < me.orderBook.nextOrder)
    (hid : (me.orderBook.orderAt r).id = (me.orderBook.orderAt r').id) : r = r' := by
  obtain ⟨o, ho, hterms⟩ := h.exists_submitted hr
  obtain ⟨o', ho', hterms'⟩ := h.exists_submitted hr'
  rw [Order.eq_of_terms Order.id (fun _ => rfl) hterms,
    Order.eq_of_terms Order.id (fun _ => rfl) hterms'] at hid
  have hget : ((submitted requests).map Order.id)[r]? =
      ((submitted requests).map Order.id)[r']? := by
    rw [List.getElem?_map, List.getElem?_map, ho, ho', Option.map_some, Option.map_some, hid]
  refine (List.getElem?_inj ?_ hfresh).mp hget
  rw [List.length_map]
  exact h.nextOrder ▸ hr

theorem ready_alloc (h : me.orderBook.WF) (hid : o.id ∉ me.orderBook.orders) :
    (me.alloc o).orderBook.Ready me.orderBook.nextOrder :=
  ⟨h.newOrder o, by rwa [alloc_self], Nat.lt_succ_self _⟩

theorem Sound.ready (h : me.Sound requests) (hfresh : FreshIDs (requests ++ [.new o])) :
    (me.alloc o).orderBook.Ready me.orderBook.nextOrder := by
  refine ready_alloc h.wf fun hmem => ?_
  obtain ⟨location, hloc⟩ := Finmap.mem_iff.mp hmem
  obtain ⟨⟨b, he⟩, hid⟩ := h.wf.indexed.mp hloc
  exact h.id_ne hfresh (h.wf.layout.order_lt he) hid

/-! ## One request -/

theorem handle_total (h : me.Sound requests) (hfresh : FreshIDs (requests ++ [request])) :
    ∃ fuel me' response, me.handle fuel request = some (me', response)
      ∧ Handled me me' request response.trades := by
  cases request with
  | new o =>
      have hready := h.ready hfresh
      obtain ⟨fuel, me', response, hrun, heff⟩ := processCommand_total hready.wf
        (c := .new me.orderBook.nextOrder) ⟨hready.allocated, hready.absent⟩
      refine ⟨fuel, me', response, hrun, ?_⟩
      cases heff with
      | entered hvalid h => exact .entered (alloc_self me o ▸ hvalid) h
      | rejected hvalid h => exact .rejected (alloc_self me o ▸ hvalid) h
  | cancel orderID =>
      obtain ⟨fuel, me', response, hrun, heff⟩ := processCommand_total h.wf
        (c := .cancel orderID) trivial
      refine ⟨fuel, me', response, hrun, ?_⟩
      cases heff with
      | withdrawn he h => exact .withdrawn he h
      | notFound hid h => exact .notFound hid h

theorem handle_det {n m : Nat} {r r' : MatchingEngine T × CommandResponse}
    (h : me.handle n request = some r) (h' : me.handle m request = some r') : r = r' := by
  cases request with
  | new o =>
      rw [handle] at h h'
      exact processCommand_det h h'
  | cancel orderID =>
      rw [handle] at h h'
      exact processCommand_det h h'

theorem handle_cases (h : me.Sound requests) (hfresh : FreshIDs (requests ++ [request]))
    {fuel : Nat} {response : CommandResponse}
    (hstep : me.handle fuel request = some (me', response)) :
    Handled me me' request response.trades := by
  obtain ⟨fuel', me'', response', hrun, hhandled⟩ := handle_total h hfresh
  obtain ⟨rfl, rfl⟩ := Prod.mk.injEq .. |>.mp (handle_det hstep hrun)
  exact hhandled

/-! ## What a request leaves alone -/

/-- The order memory after a `NEW` command, through any function that
neither fills nor statuses matter for. -/
theorem Entered.of_terms {β : Type} (f : Order → β) (hf : ∀ o, f o.terms = f o)
    {a : OrderRef} (h : Entered me me' a trades) (r : OrderRef) :
    f (me'.orderBook.orderAt r) = f (me.orderBook.orderAt r) := by
  have hstatus : ∀ o s, f { o with status := s } = f o := fun o s => by
    rw [← hf, ← hf o]
    rfl
  have hfill : ∀ o q, f (Order.fill o q) = f o := fun o q => by
    rw [← hf, ← hf o]
    rfl
  rw [h.orderAt]
  by_cases hr : r = a
  · subst hr
    dsimp only
    rw [Function.update_self, Order.closed_of_status f hstatus, walk_of_fill f hfill]
  · dsimp only
    rw [Function.update_of_ne hr, walk_of_fill f hfill]

theorem Handled.wf (h : Handled me me' request trades) (hw : me.orderBook.WF) :
    me'.orderBook.WF := by
  cases h with
  | entered _ h => exact h.wf
  | rejected _ h =>
      rw [h]
      exact (hw.newOrder _).setStatus _ .rejected
  | withdrawn _ h => exact h.wf
  | notFound _ h => exact h ▸ hw

theorem Handled.terms (h : Handled me me' request trades) {r : OrderRef}
    (hr : r < me.orderBook.nextOrder) :
    (me'.orderBook.orderAt r).terms = (me.orderBook.orderAt r).terms := by
  cases h with
  | entered _ h => rw [h.of_terms Order.terms (fun _ => rfl) r, alloc_of_lt hr]
  | rejected _ h =>
      rw [h]
      simp only [reject, OrderBook.setOrder, Function.update_of_ne (Nat.ne_of_lt hr)]
      rw [alloc_of_lt hr]
  | withdrawn _ h =>
      rename_i e he
      rw [h.orderAt]
      by_cases hr' : r = e.value
      · subst hr'
        rw [Function.update_self]
        rfl
      · rw [Function.update_of_ne hr']
  | notFound _ h => rw [h]

theorem Handled.nextOrder (h : Handled me me' request trades) :
    me'.orderBook.nextOrder = me.orderBook.nextOrder + (submitted [request]).length := by
  cases h with
  | entered _ h => exact h.frame.nextOrder
  | rejected _ h => rw [h]; rfl
  | withdrawn _ h => exact h.frame.nextOrder
  | notFound _ h => rw [h]; rfl

theorem Handled.terms_new (h : Handled me me' (.new o) trades) :
    (me'.orderBook.orderAt me.orderBook.nextOrder).terms = o.terms := by
  cases h with
  | entered _ h => rw [h.of_terms Order.terms (fun _ => rfl), alloc_self]
  | rejected _ h =>
      rw [h]
      simp only [reject, OrderBook.setOrder, Function.update_self]
      rw [alloc_self]
      rfl

theorem Sound.step (h : me.Sound requests) (hh : Handled me me' request trades) :
    me'.Sound (requests ++ [request]) := by
  have happ : submitted (requests ++ [request]) = submitted requests ++ submitted [request] :=
    List.filterMap_append ..
  refine ⟨hh.wf h.wf, ?_, fun r o ho => ?_⟩
  · rw [hh.nextOrder, happ, List.length_append, h.nextOrder]
  · rw [happ] at ho
    by_cases hr : r < (submitted requests).length
    · rw [List.getElem?_append_left hr] at ho
      rw [hh.terms (h.nextOrder ▸ hr), h.terms r o ho]
    · cases request with
      | cancel orderID =>
          rw [show submitted [Request.cancel orderID] = [] from rfl, List.append_nil] at ho
          exact absurd (List.getElem?_eq_some_iff.mp ho).1 hr
      | new o' =>
          rw [List.getElem?_append_right (Nat.not_lt.mp hr),
            show submitted [Request.new o'] = [o'] from rfl] at ho
          have hlt : r - (submitted requests).length < 1 := (List.getElem?_eq_some_iff.mp ho).1
          have hr' : r = (submitted requests).length := by omega
          rw [hr', Nat.sub_self] at ho
          obtain rfl := Option.some.inj ho
          rw [hr', ← h.nextOrder, hh.terms_new]

/-! ## Whole runs -/

theorem Initial.sound {me₀ : MatchingEngine T} (h : me₀.Initial) : me₀.Sound [] := by
  obtain ⟨instrument, hbook⟩ := h
  refine ⟨hbook ▸ OrderBook.newOrderBook_wf instrument, by rw [hbook]; rfl, ?_⟩
  rintro r o ho
  cases ho

/-- The induction rule for runs from an empty book with fresh ids, all
of whose orders satisfy `ok`. -/
theorem Run.induct {me₀ : MatchingEngine T} (h₀ : me₀.Initial) (ok : Order → Prop)
    {P : List Request → MatchingEngine T → List Trade → Prop} (hnil : P [] me₀ [])
    (hstep : ∀ {requests me trades request me' trades'}, me.Sound requests →
      FreshIDs (requests ++ [request]) → (∀ o, request = .new o → ok o) →
      Handled me me' request trades' → P requests me trades →
      P (requests ++ [request]) me' (trades ++ trades'))
    (h : Run me₀ requests me trades) (hfresh : FreshIDs requests)
    (hok : ∀ o ∈ submitted requests, ok o) : me.Sound requests ∧ P requests me trades := by
  induction h with
  | nil => exact ⟨h₀.sound, hnil⟩
  | @snoc requests me trades request fuel me' response _ hrun ih =>
      have happ : submitted (requests ++ [request]) = submitted requests ++ submitted [request] :=
        List.filterMap_append ..
      obtain ⟨hsound, hP⟩ := ih hfresh.of_append fun o ho =>
        hok o (happ ▸ List.mem_append_left _ ho)
      have hh := handle_cases hsound hfresh hrun
      refine ⟨hsound.step hh, hstep hsound hfresh (fun o ho => hok o ?_) hh hP⟩
      rw [happ, ho]
      exact List.mem_append_right _ (List.mem_singleton_self o)

theorem Run.sound {me₀ : MatchingEngine T} (h₀ : me₀.Initial) (h : Run me₀ requests me trades)
    (hfresh : FreshIDs requests) : me.Sound requests :=
  (h.induct h₀ (fun _ => True) (P := fun _ _ _ => True) trivial
    (fun _ _ _ _ _ => trivial) hfresh fun _ _ => trivial).1

theorem Run.append {me₀ : MatchingEngine T} {requests' : List Request} {trades' : List Trade}
    (h : Run me₀ requests me trades) (h' : Run me requests' me' trades') :
    Run me₀ (requests ++ requests') me' (trades ++ trades') := by
  induction h' with
  | nil => simpa using h
  | snoc _ hstep ih =>
      rw [← List.append_assoc, ← List.append_assoc]
      exact ih.snoc hstep

/-- A run all of whose steps satisfy `ok`, a condition on the engine
before the request and the request. -/
inductive RunWith (ok : MatchingEngine T → Request → Prop)
    (me₀ : MatchingEngine T) : List Request → MatchingEngine T → List Trade → Prop where
  | nil : RunWith ok me₀ [] me₀ []
  | snoc {requests me trades request fuel me' response}
      (h : RunWith ok me₀ requests me trades)
      (hstep : me.handle fuel request = some (me', response)) (hok : ok me request) :
      RunWith ok me₀ (requests ++ [request]) me' (trades ++ response.trades)

theorem RunWith.run {ok : MatchingEngine T → Request → Prop}
    {me₀ : MatchingEngine T} (h : RunWith ok me₀ requests me trades) :
    Run me₀ requests me trades := by
  induction h with
  | nil => exact .nil
  | snoc _ hstep _ ih => exact ih.snoc hstep

theorem Run.snoc_inv {me₀ : MatchingEngine T} (h : Run me₀ (requests ++ [request]) me' trades) :
    ∃ me trades₁ fuel response, Run me₀ requests me trades₁
      ∧ me.handle fuel request = some (me', response) ∧ trades = trades₁ ++ response.trades := by
  generalize hall : requests ++ [request] = all at h
  cases h with
  | nil => simp at hall
  | snoc h hstep =>
      obtain ⟨rfl, hrequest⟩ := List.append_inj' hall rfl
      obtain rfl := List.singleton_inj.mp hrequest
      exact ⟨_, _, _, _, h, hstep, rfl⟩

theorem Run.det {me₀ : MatchingEngine T} {trades' : List Trade} (h : Run me₀ requests me trades)
    (h' : Run me₀ requests me' trades') : me = me' ∧ trades = trades' := by
  induction h generalizing me' trades' with
  | nil =>
      generalize hnil : ([] : List Request) = requests at h'
      cases h' with
      | nil => exact ⟨rfl, rfl⟩
      | snoc => simp at hnil
  | snoc _ hstep ih =>
      obtain ⟨me₁, trades₁, fuel, response, h₁, hstep', rfl⟩ := h'.snoc_inv
      obtain ⟨rfl, rfl⟩ := ih h₁
      obtain ⟨rfl, rfl⟩ := Prod.mk.injEq .. |>.mp (handle_det hstep hstep')
      exact ⟨rfl, rfl⟩

theorem RunWith.snoc_inv {ok : MatchingEngine T → Request → Prop} {me₀ : MatchingEngine T}
    (h : RunWith ok me₀ (requests ++ [request]) me' trades) :
    ∃ me trades₁, RunWith ok me₀ requests me trades₁ ∧ ok me request := by
  generalize hall : requests ++ [request] = all at h
  cases h with
  | nil => simp at hall
  | snoc h _ hok =>
      obtain ⟨rfl, hrequest⟩ := List.append_inj' hall rfl
      obtain rfl := List.singleton_inj.mp hrequest
      exact ⟨_, _, h, hok⟩

def handleAll (fuel : Nat) (me : MatchingEngine T) :
    List Request → Option (MatchingEngine T × List Trade)
  | [] => some (me, [])
  | request :: requests =>
      match me.handle fuel request with
      | none => none
      | some (me, response) =>
          (handleAll fuel me requests).map fun r => (r.1, response.trades ++ r.2)

theorem handleAll_run {fuel : Nat} (h : me.handleAll fuel requests = some (me', trades)) :
    Run me requests me' trades := by
  induction requests generalizing me trades with
  | nil =>
      obtain ⟨rfl, rfl⟩ := Prod.mk.injEq .. |>.mp (Option.some.inj h)
      exact .nil
  | cons request requests ih =>
      cases hstep : me.handle fuel request with
      | none => simp only [handleAll, hstep] at h; cases h
      | some r =>
          simp only [handleAll, hstep, Option.map_eq_some_iff, Prod.mk.injEq] at h
          obtain ⟨⟨me'', trades'⟩, hrest, rfl, rfl⟩ := h
          exact (Run.nil.snoc hstep).append (ih hrest)

/-- The engine after the requests, if the fuel suffices. -/
def after (fuel : Nat) (me : MatchingEngine T) (requests : List Request) : MatchingEngine T :=
  (me.handleAll fuel requests).elim me Prod.fst

theorem after_run {fuel : Nat} (h : (me.handleAll fuel requests).isSome = true) :
    ∃ trades, Run me requests (me.after fuel requests) trades := by
  obtain ⟨⟨me', trades⟩, hall⟩ := Option.isSome_iff_exists.mp h
  refine ⟨trades, ?_⟩
  rw [after, hall]
  exact handleAll_run hall

theorem run_of_trades {fuel : Nat} (h : (me.handleAll fuel requests).map Prod.snd = some trades) :
    ∃ me', Run me requests me' trades := by
  obtain ⟨⟨me', trades'⟩, hall, rfl⟩ := Option.map_eq_some_iff.mp h
  exact ⟨me', handleAll_run hall⟩

theorem handle_after (me : MatchingEngine T) (fuel : Nat) (request : Request)
    (h : (me.handle fuel request).isSome = true) :
    ∃ response, me.handle fuel request = some (me.after fuel [request], response) := by
  obtain ⟨⟨me', response⟩, hstep⟩ := Option.isSome_iff_exists.mp h
  refine ⟨response, ?_⟩
  simp only [after, handleAll, hstep]
  rfl

/-- A run goes on with a request that is handled within the fuel. -/
theorem RunWith.handled {ok : MatchingEngine T → Request → Prop} {me₀ : MatchingEngine T}
    (h : RunWith ok me₀ requests me trades) (fuel : Nat) (request : Request) (hok : ok me request)
    (hreturns : (me.handle fuel request).isSome = true) :
    ∃ trades', RunWith ok me₀ (requests ++ [request]) (me.after fuel [request]) trades' := by
  obtain ⟨response, hstep⟩ := me.handle_after fuel request hreturns
  exact ⟨_, h.snoc hstep hok⟩

theorem Sound.run_total (h : me.Sound requests) (requests' : List Request)
    (hfresh : FreshIDs (requests ++ requests')) :
    ∃ me' trades', Run me requests' me' trades' ∧ me'.Sound (requests ++ requests') := by
  induction requests' using List.reverseRecOn with
  | nil => exact ⟨me, [], .nil, by rwa [List.append_nil]⟩
  | append_singleton requests' request ih =>
      rw [← List.append_assoc] at hfresh ⊢
      obtain ⟨me', trades', hrun, hs⟩ := ih hfresh.of_append
      obtain ⟨fuel, me'', response, hstep, hh⟩ := handle_total hs hfresh
      exact ⟨me'', _, hrun.snoc hstep, hs.step hh⟩

/-- Every request sequence with fresh ids has a run. -/
theorem run_total {me₀ : MatchingEngine T} (h₀ : me₀.Initial) (requests : List Request)
    (hfresh : FreshIDs requests) : ∃ me trades, Run me₀ requests me trades := by
  obtain ⟨me, trades, hrun, -⟩ := h₀.sound.run_total requests hfresh
  exact ⟨me, trades, hrun⟩

end

end MatchingEngine

def emptyEngine : MatchingEngine (SortedItems Decimal LevelRef) := newMatchingEngine "BTC-USD"

theorem emptyEngine_initial : emptyEngine.Initial := ⟨_, rfl⟩

def fillAndCancel : List Request := [.new sellFive, .new buyThree, .cancel sellFive.id]

/-- A queue of two and a second level on the ask side, and a bid. -/
def bothSides : List Request := [.new sellFive, .new sellBehind, .new sellHigher, .new buyLower]

end TradingBackend
