import TradingBackend.Runs
import TradingBackend.Trace

/-!
# The goroutines of the engine

`Start`, `Stop`, `IsRunning`, `SubmitOrder`, `CancelOrder` and
`matchingWorker` of `engine/matching_engine.go`, as goroutines that share
the engine. A step is what runs without interruption: a critical section
of `mu`, one operation on a channel or on the wait group, one command
matched. Any goroutine may take the next one.

`stopChan` is made once, in `NewMatchingEngine`, and never again; `close`
of a closed channel panics, and so does a wait group that falls below
zero. Nothing recovers, so a panic ends the program.

Where a worker matches a command its step is `MatchingEngine.handle`. Two
workers at a time would race on the book; results about the book show
that there are none.

Left out: the counters `commandsProcessed` and `channelBlocks`, which
nothing modelled reads, and `close(cmd.Response)`, which follows the only
send on that channel and is noticed by nobody.
-/

namespace TradingBackend

abbrev GoID := Nat

abbrev Ctx := Nat

abbrev ChanRef := Nat

structure PostedCommand where
  request : Request
  response : ChanRef

def commandChanCap : Nat := 1000

/-- Where a goroutine is. A worker that processes a command has its
context if it goes back to its loop, and none if it goes back to
`drainCommands`. -/
inductive Goroutine where
  /-- Outside the engine. -/
  | idle
  /-- `Start`, before `me.wg.Add(1)`. -/
  | startAdd (ctx : Ctx)
  /-- `Start`, before `go me.matchingWorker(ctx)`. -/
  | startGo (ctx : Ctx)
  /-- `Stop`, before `close(me.stopChan)`. -/
  | stopClose
  /-- `Stop`, at `me.wg.Wait()`. -/
  | stopWait
  /-- `Stop`, before `me.isRunning = false`. -/
  | stopReset
  /-- `SubmitOrder` or `CancelOrder`, before the `select`. -/
  | sending (request : Request)
  /-- `SubmitOrder` or `CancelOrder`, at `<-responseChan`. -/
  | waiting (response : ChanRef)
  /-- A worker at the `select` of its loop. -/
  | selecting (ctx : Ctx)
  /-- A worker in `processCommand`. -/
  | processing (ctx : Option Ctx) (cmd : PostedCommand)
  /-- A worker at `cmd.Response <- response`. -/
  | responding (ctx : Option Ctx) (cmd : PostedCommand) (response : CommandResponse)
  /-- A worker at the `select` of `drainCommands`. -/
  | draining
  /-- A worker that returns, before `me.wg.Done()`. -/
  | returning

namespace Goroutine

/-- Where a worker goes on after a command. -/
def resume : Option Ctx → Goroutine
  | some ctx => .selecting ctx
  | none => .draining

end Goroutine

/-- The engine with its goroutines. A response channel holds at most one
response. -/
structure System (T : Type) where
  engine : MatchingEngine T
  isRunning : Bool
  stopClosed : Bool
  wg : Nat
  commandChan : List PostedCommand
  responses : ChanRef → Option CommandResponse
  nextChan : ChanRef
  cancelled : Ctx → Bool
  goroutines : GoID → Goroutine
  panicked : Bool

/-- The steps. `passed` says whether `isRunning` let a call go on; a call
that is refused returns its error. -/
inductive Event where
  | start (i : GoID) (ctx : Ctx) (passed : Bool)
  | add (i : GoID)
  | go (i j : GoID)
  | stop (i : GoID) (passed : Bool)
  | close (i : GoID)
  | wait (i : GoID)
  | reset (i : GoID)
  | isRunning (result : Bool)
  | call (i : GoID) (request : Request) (passed : Bool)
  | full (i : GoID) (request : Request)
  | send (i : GoID) (cmd : PostedCommand)
  | receive (i : GoID) (response : ChanRef) (result : CommandResponse)
  | cancel (ctx : Ctx)
  | take (i : GoID) (cmd : PostedCommand)
  | process (i : GoID) (cmd : PostedCommand)
  | respond (i : GoID) (cmd : PostedCommand) (response : CommandResponse)
  | quit (i : GoID)
  | drained (i : GoID)
  | exit (i : GoID)

variable {T : Type}

/-- `NewMatchingEngine`, and nobody has called anything. -/
def newSystem [OrderedTree T Decimal LevelRef] (instrument : String) : System T where
  engine := newMatchingEngine instrument
  isRunning := false
  stopClosed := false
  wg := 0
  commandChan := []
  responses := fun _ => none
  nextChan := 0
  cancelled := fun _ => false
  goroutines := fun _ => .idle
  panicked := false

namespace System

def move (s : System T) (i : GoID) (g : Goroutine) : System T :=
  { s with goroutines := Function.update s.goroutines i g }

variable [OrderedTree T Decimal LevelRef]

/-- What a goroutine can do in a program that runs. -/
inductive Step (s : System T) : Event → System T → Prop where
  | startRefused {i ctx} (h : s.goroutines i = .idle) (hrun : s.isRunning = true) :
      Step s (.start i ctx false) s
  | start {i ctx} (h : s.goroutines i = .idle) (hrun : s.isRunning = false) :
      Step s (.start i ctx true) ({ s with isRunning := true }.move i (.startAdd ctx))
  | add {i ctx} (h : s.goroutines i = .startAdd ctx) :
      Step s (.add i) ({ s with wg := s.wg + 1 }.move i (.startGo ctx))
  | go {i j ctx} (h : s.goroutines i = .startGo ctx) (hj : s.goroutines j = .idle) :
      Step s (.go i j) ((s.move i .idle).move j (.selecting ctx))
  | stopRefused {i} (h : s.goroutines i = .idle) (hrun : s.isRunning = false) :
      Step s (.stop i false) s
  | stop {i} (h : s.goroutines i = .idle) (hrun : s.isRunning = true) :
      Step s (.stop i true) (s.move i .stopClose)
  | close {i} (h : s.goroutines i = .stopClose) (hopen : s.stopClosed = false) :
      Step s (.close i) ({ s with stopClosed := true }.move i .stopWait)
  | closeClosed {i} (h : s.goroutines i = .stopClose) (hclosed : s.stopClosed = true) :
      Step s (.close i) { s with panicked := true }
  | wait {i} (h : s.goroutines i = .stopWait) (hwg : s.wg = 0) :
      Step s (.wait i) (s.move i .stopReset)
  | reset {i} (h : s.goroutines i = .stopReset) :
      Step s (.reset i) ({ s with isRunning := false }.move i .idle)
  | isRunning : Step s (.isRunning s.isRunning) s
  | callRefused {i request} (h : s.goroutines i = .idle) (hrun : s.isRunning = false) :
      Step s (.call i request false) s
  | call {i request} (h : s.goroutines i = .idle) (hrun : s.isRunning = true) :
      Step s (.call i request true) (s.move i (.sending request))
  | full {i request} (h : s.goroutines i = .sending request)
      (hfull : ¬s.commandChan.length < commandChanCap) :
      Step s (.full i request) (s.move i .idle)
  | send {i request} (h : s.goroutines i = .sending request)
      (hroom : s.commandChan.length < commandChanCap) :
      Step s (.send i ⟨request, s.nextChan⟩)
        ({ s with
            commandChan := s.commandChan ++ [PostedCommand.mk request s.nextChan]
            nextChan := s.nextChan + 1 }.move i (.waiting s.nextChan))
  | receive {i response result} (h : s.goroutines i = .waiting response)
      (hresult : s.responses response = some result) :
      Step s (.receive i response result)
        ({ s with responses := Function.update s.responses response none }.move i .idle)
  | cancel {ctx} :
      Step s (.cancel ctx) { s with cancelled := Function.update s.cancelled ctx true }
  | take {i ctx cmd rest} (h : s.goroutines i = .selecting ctx)
      (hchan : s.commandChan = cmd :: rest) :
      Step s (.take i cmd) ({ s with commandChan := rest }.move i (.processing (some ctx) cmd))
  | quitCancelled {i ctx} (h : s.goroutines i = .selecting ctx) (hctx : s.cancelled ctx = true) :
      Step s (.quit i) (s.move i .draining)
  | quitStopped {i ctx} (h : s.goroutines i = .selecting ctx) (hclosed : s.stopClosed = true) :
      Step s (.quit i) (s.move i .draining)
  | takeLeft {i cmd rest} (h : s.goroutines i = .draining) (hchan : s.commandChan = cmd :: rest) :
      Step s (.take i cmd) ({ s with commandChan := rest }.move i (.processing none cmd))
  | drained {i} (h : s.goroutines i = .draining) (hchan : s.commandChan = []) :
      Step s (.drained i) (s.move i .returning)
  | process {i ctx cmd fuel engine response} (h : s.goroutines i = .processing ctx cmd)
      (hhandle : s.engine.handle fuel cmd.request = some (engine, response)) :
      Step s (.process i cmd) ({ s with engine := engine }.move i (.responding ctx cmd response))
  | respond {i ctx cmd response} (h : s.goroutines i = .responding ctx cmd response)
      (hroom : s.responses cmd.response = none) :
      Step s (.respond i cmd response)
        ({ s with responses := Function.update s.responses cmd.response (some response) }.move i
          (.resume ctx))
  | exit {i wg} (h : s.goroutines i = .returning) (hwg : s.wg = wg + 1) :
      Step s (.exit i) ({ s with wg := wg }.move i .idle)
  | exitNegative {i} (h : s.goroutines i = .returning) (hwg : s.wg = 0) :
      Step s (.exit i) { s with panicked := true }

def Next (s : System T) (e : Event) (s' : System T) : Prop := s.panicked = false ∧ s.Step e s'

end System

end TradingBackend
