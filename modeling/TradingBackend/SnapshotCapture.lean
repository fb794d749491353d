import TradingBackend.LevelWrites
import TradingBackend.Snapshots

/-!
# Snapshots while the worker works

`captureOrderbook` of `engine/snapshot_manager.go` runs in a goroutine of its
own. `GetTopLevels` holds the lock of the book, but what it returns are
pointers to levels, and their volumes and numbers of orders are read after
that, one by one, while the worker goes on. A level can be gone by then; it is
still there in memory, empty. The worker can also be in the middle of writing
it, since the goroutine reads without the lock.

The prices of a snapshot are those of one moment, because the price of a level
never changes: they are sorted, and no bid reaches an ask (`captured_snapshot`).
A volume is that of its level at a moment during the capture, up to a fill
that is under way; or, when the worker was just writing the level, that of a
part of its queue, of no order at all if `UpdateVolume` had just begun.
Different levels are read at different moments, so that there need not be a
moment at which the book looked like the snapshot.

A write of a volume and a read of it are one step each: a decimal, which is two
words, is not torn, and writes are seen in their order. The volume of a level is
read before its number of orders; Go leaves their order open, and
`captured_snapshot` speaks of each of them at a moment of its own.
-/

namespace TradingBackend

variable {T : Type} [OrderedTree T Decimal LevelRef]

/-! ## The capture -/

/-- A goroutine in `captureOrderbook`: the levels it has yet to convert, bids
first, each with its side; the volume it has read of the first of them; and the
levels it has converted. -/
structure Capture where
  todo : List (Bool × LevelRef)
  volume : Option Decimal
  done : List (Bool × SnapshotPriceLevel)

def Capture.levels (c : Capture) (isBid : Bool) : List SnapshotPriceLevel :=
  c.done.filterMap fun x => if x.1 = isBid then some x.2 else none

/-- What the loop over a side has collected: the levels and their total volume. -/
def Capture.side (c : Capture) (isBid : Bool) : List SnapshotPriceLevel × Decimal :=
  (c.levels isBid, ((c.levels isBid).map SnapshotPriceLevel.totalVolume).sum)

/-- The snapshot that `captureOrderbook` returns. -/
def Capture.snapshot (c : Capture) (sm : SnapshotManager) (now : Time)
    (snapshotType : SnapshotType) (triggeredBy : String) : OrderbookSnapshot :=
  sm.assemble (c.side true) (c.side false) now snapshotType triggeredBy

/-- A step of the worker that is under way, with the lock taken: the step, the
level it writes, what the level looks like by now, and the writes to come. -/
structure Writing (T : Type) where
  event : WorkerEvent
  next : Worker T
  level : LevelRef
  seen : PriceLevel
  pending : List PriceLevel

/-- The worker, which may be in the middle of a step, and a goroutine that
captures the book. -/
structure Capturing (T : Type) where
  worker : Worker T
  writing : Option (Writing T)
  capture : Option Capture

inductive CaptureEvent where
  | worker (ev : WorkerEvent)
  | enter
  | write
  | look
  | readVolume
  | readCount

namespace CaptureEvent

def worker? : CaptureEvent → Option WorkerEvent
  | worker ev => some ev
  | _ => none

end CaptureEvent

namespace Capturing

def start (me : MatchingEngine T) : Capturing T := ⟨⟨me, .waiting⟩, none, none⟩

def book (s : Capturing T) : OrderBook T := s.worker.engine.orderBook

/-- What a goroutine finds that reads a level without the lock. -/
def levelSeen (s : Capturing T) (l : LevelRef) : PriceLevel :=
  match s.writing with
  | some writing => if writing.level = l then writing.seen else s.book.levelAt l
  | none => s.book.levelAt l

/-- The levels `GetTopLevels` returns, with their sides. -/
def topLevels (ob : OrderBook T) (n : Nat) : List (Bool × LevelRef) :=
  (ob.getTopLevels n).1.map (true, ·) ++ (ob.getTopLevels n).2.map (false, ·)

inductive Step (sm : SnapshotManager) (s : Capturing T) : CaptureEvent → Capturing T → Prop where
  -- the worker: a step that writes no level, or the writes of a step one by one
  | worker {ev w} (hidle : s.writing = none) (hstep : s.worker.Step ev w)
      (hwrites : s.worker.writes ev = none) : Step sm s (.worker ev) { s with worker := w }
  | enter {ev w l views} (hidle : s.writing = none) (hstep : s.worker.Step ev w)
      (hwrites : s.worker.writes ev = some (l, views)) :
      Step sm s .enter { s with writing := some ⟨ev, w, l, s.book.levelAt l, views⟩ }
  | write {ev w l seen view views} (hwriting : s.writing = some ⟨ev, w, l, seen, view :: views⟩) :
      Step sm s .write { s with writing := some ⟨ev, w, l, view, views⟩ }
  | leave {ev w l seen} (hwriting : s.writing = some ⟨ev, w, l, seen, []⟩) :
      Step sm s (.worker ev) { s with worker := w, writing := none }
  -- the capture: `GetTopLevels` waits for the lock, the reads do not
  | look (hidle : s.writing = none) (hcapture : s.capture = none) :
      Step sm s .look { s with capture := some ⟨topLevels s.book sm.maxLevels, none, []⟩ }
  | readVolume {b l todo done} (hcapture : s.capture = some ⟨(b, l) :: todo, none, done⟩) :
      Step sm s .readVolume
        { s with capture := some ⟨(b, l) :: todo, some (s.levelSeen l).volume, done⟩ }
  | readCount {b l todo volume done}
      (hcapture : s.capture = some ⟨(b, l) :: todo, some volume, done⟩) :
      Step sm s .readCount
        { s with
          capture := some ⟨todo, none,
            done ++ [(b, ⟨(s.levelSeen l).price, volume, (s.levelSeen l).orders.length⟩)]⟩ }

/-! ## What it finds -/

/-- The order in which a snapshot has its prices: bids first, by falling
price, then asks, by rising price. -/
def Ranked (x y : Bool × Decimal) : Prop :=
  if y.1 then x.1 = true ∧ y.2 < x.2 else x.2 < y.2

theorem topLevels_filed {ob : OrderBook T} {n : Nat} {x : Bool × LevelRef}
    (hx : x ∈ topLevels ob n) : ob.Filed x.1 x.2 := by
  rw [topLevels, SnapshotManager.getTopLevels_eq] at hx
  rcases List.mem_append.mp hx with hx | hx
  · obtain ⟨l, hl, rfl⟩ := List.mem_map.mp hx
    exact OrderBook.mem_levels.mp (List.mem_of_mem_take hl)
  · obtain ⟨l, hl, rfl⟩ := List.mem_map.mp hx
    exact OrderBook.mem_levels.mp (List.mem_of_mem_take hl)

theorem topLevels_ranked {ob : OrderBook T} (hl : ob.Layout) (hu : ob.Uncrossed) (n : Nat) :
    ((topLevels ob n).map fun x => (x.1, (ob.levelAt x.2).price)).Pairwise Ranked := by
  have hside : ∀ b, (((ob.levels b).take n).map fun l => (b, (ob.levelAt l).price)).Pairwise
      Ranked := by
    intro b
    refine List.pairwise_map.mpr (((hl.levels_sorted b).sublist (List.take_sublist ..)).imp ?_)
    intro l l' hbetter
    cases b
    · simpa [Ranked, better] using hbetter
    · simpa [Ranked, better] using hbetter
  rw [topLevels, SnapshotManager.getTopLevels_eq, List.map_append, List.map_map, List.map_map]
  refine List.pairwise_append.mpr ⟨hside true, hside false, ?_⟩
  intro x hx y hy
  obtain ⟨l, hl₁, rfl⟩ := List.mem_map.mp hx
  obtain ⟨l', hl₂, rfl⟩ := List.mem_map.mp hy
  have hf := OrderBook.mem_levels.mp (List.mem_of_mem_take hl₁)
  have hf' := OrderBook.mem_levels.mp (List.mem_of_mem_take hl₂)
  -- a level is not empty, and its orders have its price
  obtain ⟨e, he⟩ := List.exists_mem_of_ne_nil _ (hl.nonempty hf)
  obtain ⟨e', he'⟩ := List.exists_mem_of_ne_nil _ (hl.nonempty hf')
  have hlt := hu e (OrderBook.mem_elements.mpr ⟨l, hf, he⟩) e'
    (OrderBook.mem_elements.mpr ⟨l', hf', he'⟩)
  rw [OrderBook.priceOf, OrderBook.priceOf, hl.order_price ⟨hf, he⟩,
    hl.order_price ⟨hf', he'⟩] at hlt
  exact hlt

/-- `P` held at a moment since the levels were looked up. -/
def Since (sm : SnapshotManager) (s₀ : Capturing T) (es : List CaptureEvent)
    (P : Capturing T → Prop) : Prop :=
  ∃ es₁ s₁, es₁ <+: es ∧ CaptureEvent.look ∈ es₁ ∧ Trace (Step sm) s₀ es₁ s₁ ∧ P s₁

variable {sm : SnapshotManager} {s₀ s s' : Capturing T} {es : List CaptureEvent}
  {ev : CaptureEvent} {c : Capture} {P : Capturing T → Prop}

theorem Since.snoc (h : Since sm s₀ es P) (ev : CaptureEvent) : Since sm s₀ (es ++ [ev]) P := by
  obtain ⟨es₁, s₁, hprefix, h⟩ := h
  exact ⟨es₁, s₁, hprefix.trans (List.prefix_append ..), h⟩

theorem Since.now (h : Trace (Step sm) s₀ es s) (hlook : CaptureEvent.look ∈ es) (hP : P s) :
    Since sm s₀ es P :=
  ⟨es, s, List.prefix_rfl, hlook, h, hP⟩

/-- The volume `v` is what level `l` holds, or, in the middle of a step that
writes the level, what a part of its queue holds. -/
def Shows (s : Capturing T) (l : LevelRef) (v : Decimal) : Prop :=
  v = s.worker.held l
    ∨ ∃ writing part, s.writing = some writing ∧ writing.level = l
      ∧ part.Sublist writing.seen.orders ∧ v = writing.next.engine.orderBook.queued part

/-- What holds in the middle of a step: the level looks as before the step, or
has the volume of a part of its queue, by the orders as the step leaves them. -/
structure Midway (w : Worker T) (writing : Writing T) : Prop where
  step : w.Step writing.event writing.next
  price : writing.level < w.engine.orderBook.nextLevel →
    ∀ view ∈ writing.seen :: writing.pending,
      view.price = (w.engine.orderBook.levelAt writing.level).price
  seen : writing.seen = w.engine.orderBook.levelAt writing.level
    ∨ writing.next.engine.orderBook.CountsPart writing.seen
  pending : ∀ view ∈ writing.pending, writing.next.engine.orderBook.CountsPart view

/-- What a goroutine knows in the course of its capture. -/
structure Reading (sm : SnapshotManager) (s₀ : Capturing T) (es : List CaptureEvent)
    (s : Capturing T) (c : Capture) : Prop where
  look : CaptureEvent.look ∈ es
  lt : ∀ x ∈ c.todo, x.2 < s.book.nextLevel
  ranked : (c.done.map (fun x => (x.1, x.2.price))
    ++ c.todo.map fun x => (x.1, (s.book.levelAt x.2).price)).Pairwise Ranked
  volume : ∀ {x todo v}, c.todo = x :: todo → c.volume = some v →
    Since sm s₀ es fun s => s.Shows x.2 v
  done : ∀ x ∈ c.done, ∃ l, (Since sm s₀ es fun s => s.Shows l x.2.totalVolume)
    ∧ Since sm s₀ es fun s => x.2.price = (s.levelSeen l).price
      ∧ x.2.orderCount = (s.levelSeen l).orders.length

theorem Reading.work (h : Reading sm s₀ es s c)
    (hkept : OrderBook.LevelsKept s.book s'.book) : Reading sm s₀ (es ++ [ev]) s' c := by
  have hprice : (c.todo.map fun x => (x.1, (s'.book.levelAt x.2).price)) =
      c.todo.map fun x => (x.1, (s.book.levelAt x.2).price) :=
    List.map_congr_left fun x hx => by rw [hkept.price (h.lt x hx)]
  refine ⟨List.mem_append_left _ h.look, fun x hx => (h.lt x hx).trans_le hkept.nextLevel,
    hprice ▸ h.ranked, fun htodo hvolume => (h.volume htodo hvolume).snoc ev, fun x hx => ?_⟩
  obtain ⟨l, hvolume, hcount⟩ := h.done x hx
  exact ⟨l, hvolume.snoc ev, hcount.snoc ev⟩

def accepted (es : List CaptureEvent) : List Request :=
  (es.filterMap CaptureEvent.worker?).filterMap WorkerEvent.accepted?

theorem fresh_of_snoc (h : FreshIDs (accepted (es ++ [ev]))) : FreshIDs (accepted es) := by
  rw [accepted, history_snoc, List.filterMap_append] at h
  exact h.of_append_left

variable {me₀ : MatchingEngine T}

theorem midway_enter {w w' : Worker T} {wev : WorkerEvent} {l : LevelRef} {views : List PriceLevel}
    (hv : MatchingEngine.Visible w) (hstep : w.Step wev w')
    (hwrites : w.writes wev = some (l, views)) :
    Midway w ⟨wev, w', l, w.engine.orderBook.levelAt l, views⟩ := by
  have hwritten := MatchingEngine.step_written hv hstep
  rw [hwrites] at hwritten
  refine ⟨hstep, fun hl => List.forall_mem_cons.mpr ⟨rfl, hwritten.price hl⟩, Or.inl rfl,
    hwritten.counts⟩

theorem Midway.write {w w' : Worker T} {wev : WorkerEvent} {l : LevelRef}
    {seen view : PriceLevel} {views : List PriceLevel}
    (h : Midway w ⟨wev, w', l, seen, view :: views⟩) :
    Midway w ⟨wev, w', l, view, views⟩ := by
  obtain ⟨hview, hviews⟩ := List.forall_mem_cons.mp h.pending
  exact ⟨h.step, fun hl => (List.forall_mem_cons.mp (h.price hl)).2, Or.inr hview, hviews⟩

section

variable (hmidway : ∀ writing, s.writing = some writing → Midway s.worker writing)
include hmidway

theorem levelSeen_price {l : LevelRef} (hl : l < s.book.nextLevel) :
    (s.levelSeen l).price = (s.book.levelAt l).price := by
  rw [levelSeen]
  split
  · rename_i writing hwriting
    split_ifs with heq
    · subst heq
      exact (hmidway writing hwriting).price hl _ (List.mem_cons_self ..)
    · rfl
  · rfl

theorem shows_levelSeen (hv : MatchingEngine.Visible s.worker) (ht : s.book.Tidy) {l : LevelRef}
    (hl : l < s.book.nextLevel) : s.Shows l (s.levelSeen l).volume := by
  have hheld : s.Shows l (s.book.levelAt l).volume := Or.inl (hv.volume_eq ht hl)
  rw [levelSeen]
  split
  · rename_i writing hwriting
    split_ifs with heq
    · rcases (hmidway writing hwriting).seen with hseen | ⟨part, hpart, hvolume⟩
      · rw [hseen, heq]
        exact hheld
      · exact Or.inr ⟨writing, part, hwriting, heq, hpart, hvolume⟩
    · exact hheld
  · exact hheld

end

/-- What holds after every trace of the worker and the capture. Taken without
the capture it is a trace of the worker, whose steps are then whole again. -/
structure Follows (sm : SnapshotManager) (me₀ : MatchingEngine T) (es : List CaptureEvent)
    (s : Capturing T) : Prop where
  worker : Trace Worker.Step ⟨me₀, .waiting⟩ (es.filterMap CaptureEvent.worker?) s.worker
  tidy : s.book.Tidy
  writing : ∀ writing, s.writing = some writing → Midway s.worker writing
  reading : ∀ c, s.capture = some c → Reading sm (start me₀) es s c

theorem follows_start (sm : SnapshotManager) (h₀ : me₀.Initial) :
    Follows sm me₀ [] (start me₀) := by
  obtain ⟨instrument, hbook⟩ := h₀
  refine ⟨.nil, fun l hl => ?_, ?_, ?_⟩
  · rw [book, start, hbook] at hl
    exact absurd hl (Nat.not_lt_zero l)
  · rintro _ ⟨⟩
  · rintro _ ⟨⟩

/-- The worker does something that leaves the levels as `LevelsKept` says. -/
theorem Follows.work (h : Follows sm me₀ es s)
    (hworker : Trace Worker.Step ⟨me₀, .waiting⟩ ((es ++ [ev]).filterMap CaptureEvent.worker?)
      s'.worker)
    (hkept : OrderBook.LevelsKept s.book s'.book) (hcapture : s'.capture = s.capture)
    (hwriting : ∀ writing, s'.writing = some writing → Midway s'.worker writing) :
    Follows sm me₀ (es ++ [ev]) s' :=
  ⟨hworker, hkept.tidy h.tidy, hwriting, fun c hc => (h.reading c (hcapture ▸ hc)).work hkept⟩

theorem Follows.step (h : Follows sm me₀ es s) (hv : MatchingEngine.Visible s.worker)
    (htrace : Trace (Step sm) (start me₀) (es ++ [ev]) s') (hstep : Step sm s ev s') :
    Follows sm me₀ (es ++ [ev]) s' := by
  have hsame : ev.worker? = none →
      Trace Worker.Step ⟨me₀, .waiting⟩ ((es ++ [ev]).filterMap CaptureEvent.worker?) s.worker := by
    intro hnone
    rw [history_snoc, hnone]
    exact (List.append_nil _).symm ▸ h.worker
  cases hstep with
  | worker hidle hstep hwrites =>
      refine h.work ?_ (MatchingEngine.step_levelsKept hv hstep) rfl ?_
      · rw [history_snoc]
        exact h.worker.snoc hstep
      · rw [hidle]
        rintro _ ⟨⟩
  | enter hidle hstep hwrites =>
      refine h.work (hsame rfl) (.refl _) rfl ?_
      rintro _ ⟨⟩
      exact midway_enter hv hstep hwrites
  | write hwriting =>
      refine h.work (hsame rfl) (.refl _) rfl ?_
      rintro _ ⟨⟩
      exact (h.writing _ hwriting).write
  | leave hwriting =>
      have hstep := (h.writing _ hwriting).step
      refine h.work ?_ (MatchingEngine.step_levelsKept hv hstep) rfl ?_
      · rw [history_snoc]
        exact h.worker.snoc hstep
      · rintro _ ⟨⟩
  | look hidle hcapture =>
      refine ⟨hsame rfl, h.tidy, h.writing, ?_⟩
      rintro c ⟨⟩
      refine ⟨List.mem_append_right _ (List.mem_singleton_self _), fun x hx => ?_,
        topLevels_ranked hv.layout hv.uncrossed _, fun _ => nofun, List.forall_mem_nil _⟩
      exact hv.layout.level_lt (topLevels_filed hx)
  | @readVolume b l todo done hcapture =>
      have hr := h.reading _ hcapture
      refine ⟨hsame rfl, h.tidy, h.writing, ?_⟩
      rintro c ⟨⟩
      have hlook := List.mem_append_left [CaptureEvent.readVolume] hr.look
      refine ⟨hlook, hr.lt, hr.ranked, ?_, fun x hx => ?_⟩
      · rintro x todo' v ⟨⟩ ⟨⟩
        exact .now htrace hlook
          (shows_levelSeen h.writing hv h.tidy (hr.lt _ (List.mem_cons_self ..)))
      · obtain ⟨l, hvolume, hcount⟩ := hr.done x hx
        exact ⟨l, hvolume.snoc _, hcount.snoc _⟩
  | @readCount b l todo volume done hcapture =>
      have hr := h.reading _ hcapture
      refine ⟨hsame rfl, h.tidy, h.writing, ?_⟩
      rintro c ⟨⟩
      have hlook := List.mem_append_left [CaptureEvent.readCount] hr.look
      refine ⟨hlook, fun x hx => hr.lt x (List.mem_cons_of_mem _ hx), ?_, fun _ => nofun, ?_⟩
      · have hranked := hr.ranked
        rw [levelSeen_price h.writing (hr.lt _ (List.mem_cons_self ..))]
        simp only [List.map_append, List.map_cons, List.map_nil, List.append_assoc,
          List.singleton_append] at hranked ⊢
        exact hranked
      · refine List.forall_mem_append.mpr ⟨fun x hx => ?_, List.forall_mem_singleton.mpr ?_⟩
        · obtain ⟨l, hvolume, hcount⟩ := hr.done x hx
          exact ⟨l, hvolume.snoc _, hcount.snoc _⟩
        · exact ⟨l, (hr.volume rfl rfl).snoc _, .now htrace hlook ⟨rfl, rfl⟩⟩

theorem follows (h₀ : me₀.Initial) (h : Trace (Step sm) (start me₀) es s)
    (hfresh : FreshIDs (accepted es)) : Follows sm me₀ es s := by
  induction h with
  | nil => exact follows_start sm h₀
  | snoc h hstep ih =>
      have hbefore := fresh_of_snoc hfresh
      have hfollows := ih hbefore
      exact hfollows.step ((MatchingEngine.reached h₀ hfollows.worker hbefore).visible h₀ hbefore)
        (h.snoc hstep) hstep

/-! ## While the worker does nothing -/

def convert (ob : OrderBook T) (x : Bool × LevelRef) : Bool × SnapshotPriceLevel :=
  (x.1, SnapshotManager.captureLevel (ob.levelAt x.2))

/-- The levels of the capture are those of one book. -/
structure Still (ob : OrderBook T) (top : List (Bool × LevelRef)) (s : Capturing T)
    (c : Capture) : Prop where
  capture : s.capture = some c
  writing : s.writing = none
  book : s.book = ob
  levels : c.done ++ c.todo.map (convert ob) = top.map (convert ob)
  volume : ∀ {x todo v}, c.todo = x :: todo → c.volume = some v → v = (ob.levelAt x.2).volume

omit [OrderedTree T Decimal LevelRef] in
theorem Still.levelSeen {ob : OrderBook T} {top : List (Bool × LevelRef)} (h : Still ob top s c)
    (l : LevelRef) : s.levelSeen l = ob.levelAt l := by
  rw [Capturing.levelSeen, h.writing, h.book]

end Capturing

end TradingBackend
