import NetPrograms.ChannelDispatch
import NetPrograms.RunInvariants

set_option autoImplicit false

/-!
# One batch of active Channels

`loop` dispatches the Channels that `poll` has put into `activeChannels_`, whatever their
handlers do in the meantime. A handler is given by the calls it makes; it may change or remove
any Channel. Channel objects exist throughout; a new one is one that was not used before.
-/
namespace NetPrograms.LoopDispatch
open PollerModel PollerMirror ServerModel ChannelDispatch RunInvariants

/-- A call made by a handler or by a pending functor. `Socket::handleClose` makes two, `close`
and `remove`. -/
inductive Action where
  | channelOp (p : Ptr) (op : ChannelOp)
  | updateChannel (p : Ptr)
  | removeChannel (p : Ptr)
  | close (fd : ℤ)
  | opens (fd : ℤ) (file : OpenFile)
  | quit
  deriving DecidableEq, Repr

namespace Action

def removes (p : Ptr) : Action → Bool
  | channelOp q op => q = p ∧ op = .remove
  | removeChannel q => q = p
  | _ => false

/-- Every change of interest of a removed Channel registers it again. -/
def registers (p : Ptr) : Action → Bool
  | channelOp q op => q = p ∧ op ≠ .remove
  | updateChannel q => q = p
  | _ => false

end Action

/-- What the four callbacks of a Channel do in one `handleEvent`. -/
structure Handlers where
  close : List Action
  error : List Action
  read : List Action
  write : List Action

/-- The loop inside one iteration. `removed` marks the Channels that were removed in it and
not registered again. -/
structure Batch where
  reactor : Reactor
  quit_ : Bool
  removed : Ptr → Bool

def Action.mark (removed : Ptr → Bool) (a : Action) : Ptr → Bool :=
  fun p => a.removes p || removed p && !a.registers p

def Action.onReactor (r : Reactor) : Action → Reactor
  | channelOp p op => op.run p r
  | updateChannel p => EventLoop.updateChannel p r
  | removeChannel p => EventLoop.removeChannel p r
  | close fd => { r with kernel := r.kernel.close fd }
  | opens fd file => { r with kernel := { r.kernel with
      descriptors := Function.update r.kernel.descriptors fd (some file) } }
  | quit => r

def Action.run (s : Batch) (a : Action) : Batch :=
  ⟨a.onReactor s.reactor, s.quit_ || a = .quit, a.mark s.removed⟩

def performAll (s : Batch) (actions : List Action) : Batch := actions.foldl Action.run s

namespace Channel

def invoke (cb : Option Callback) (actions : List Action) (s : Batch) : Batch :=
  if cb.isSome then performAll s actions else s

def setEventHandling (b : Bool) (p : Ptr) (s : Batch) : Batch :=
  { s with reactor := s.reactor.setChannel p fun c => { c with eventHandling_ := b } }

def handleEvent (p : Ptr) (h : Handlers) (s : Batch) : Batch :=
  let s := setEventHandling true p s
  let channel (s : Batch) := s.reactor.channel p
  let s := if hungUp (channel s).revents_ then invoke (channel s).closeCallback_ h.close s else s
  let s := if (channel s).revents_ &&& EPOLLERR ≠ 0 then
    invoke (channel s).errorCallback_ h.error s else s
  let s := if readable (channel s).revents_ then invoke (channel s).readCallback_ h.read s else s
  let s := if writable (channel s).revents_ then invoke (channel s).writeCallback_ h.write s else s
  setEventHandling false p s

end Channel

structure Loop where
  reactor : Reactor
  quit_ : Bool

/-- The outside in one iteration: what `epoll_wait` gives, what the handlers do by their
position in the batch, and what the pending functors do. -/
structure Iteration where
  result : WaitResult
  handlers : ℕ → Handlers
  functors : List Action

namespace Iteration

def batch (it : Iteration) (s : Loop) : Batch :=
  ⟨(Poller.poll it.result s.reactor []).1, s.quit_, fun _ => false⟩

def turns (it : Iteration) (s : Loop) : List (Ptr × Handlers) :=
  (Poller.poll it.result s.reactor []).2.mapIdx fun i p => (p, it.handlers i)

def run (it : Iteration) (s : Loop) : Loop :=
  let b := (it.turns s).foldl (fun b a => Channel.handleEvent a.1 a.2 b) (it.batch s)
  let b := performAll b it.functors
  ⟨b.reactor, b.quit_⟩

end Iteration

def Iterates (s : Loop) (it : Iteration) (t : Loop) : Prop := s.quit_ = false ∧ t = it.run s

def Handles (b : Batch) (a : Ptr × Handlers) (b' : Batch) : Prop :=
  b' = Channel.handleEvent a.1 a.2 b

/-- `handleEvent` is called on no Channel that was removed in this iteration and not
registered again. -/
def SkipsRemoved (s : Loop) (it : Iteration) (_ : Loop) : Prop :=
  EachStep Handles (fun b a _ => b.removed a.1 = false) (it.batch s) (it.turns s)

def performed (c : PollerModel.Channel) (h : Handlers) : List Action :=
  (if hungUp c.revents_ ∧ c.closeCallback_.isSome then h.close else []) ++
  (if c.revents_ &&& EPOLLERR ≠ 0 ∧ c.errorCallback_.isSome then h.error else []) ++
  (if readable c.revents_ ∧ c.readCallback_.isSome then h.read else []) ++
  (if writable c.revents_ ∧ c.writeCallback_.isSome then h.write else [])

def performedBy (r : Reactor) (turns : List (Ptr × Handlers)) : List Action :=
  turns.flatMap fun a => performed (r.channel a.1) a.2

def Restores (p : Ptr) (actions : List Action) : Prop :=
  ∀ before a after, actions = before ++ a :: after → a.removes p →
    ∃ x ∈ after, x.registers p = true

/-- What the handlers of the Channels in front of a Channel of the batch remove of it, they
register again. -/
def RestoresLater (s : Loop) (it : Iteration) : Prop :=
  ∀ before a after, it.turns s = before ++ a :: after →
    Restores a.1 (performedBy (it.batch s).reactor before)

def SameBound (r r' : Reactor) : Prop :=
  ∀ q, Channel.bound (r'.channel q) = Channel.bound (r.channel q)

theorem SameBound.trans {r u t : Reactor} (h : SameBound r u) (h' : SameBound u t) :
    SameBound r t := fun q => (h' q).trans (h q)

theorem action_bound (r : Reactor) (a : Action) : SameBound r (a.onReactor r) := by
  cases a with
  | channelOp p op =>
    cases op with
    | enableReading | enableWriting | disableWriting | disableAll =>
      exact (setEvents_frame _ p r).channel
    | remove => exact (removeChannel_frame p r).channel
  | updateChannel p => exact (updateChannel_frame p r).channel
  | removeChannel p => exact (removeChannel_frame p r).channel
  | close _ | opens _ _ | quit => exact fun _ => rfl

theorem performAll_bound (s : Batch) (actions : List Action) :
    SameBound s.reactor (performAll s actions).reactor := by
  induction actions generalizing s with
  | nil => exact fun _ => rfl
  | cons a actions ih => exact (action_bound s.reactor a).trans (ih (a.run s))

theorem setEventHandling_bound (b : Bool) (p : Ptr) (s : Batch) :
    SameBound s.reactor (Channel.setEventHandling b p s).reactor :=
  (setChannel_frame (fun c => { c with eventHandling_ := b }) p s.reactor fun _ => rfl).channel

theorem performed_bound {c c' : PollerModel.Channel} (h : Channel.bound c' = Channel.bound c)
    (handlers : Handlers) : performed c' handlers = performed c handlers :=
  (congrArg (performed · handlers) h :)

theorem performAll_append (s : Batch) (l m : List Action) :
    performAll s (l ++ m) = performAll (performAll s l) m := List.foldl_append

theorem invoke_eq (c : Prop) [Decidable c] (cb : Option Callback) (actions : List Action)
    (s : Batch) : (if c then Channel.invoke cb actions s else s) =
      performAll s (if c ∧ cb.isSome then actions else []) := by
  unfold Channel.invoke
  by_cases hc : c <;> by_cases hcb : cb.isSome <;> simp only [hc, hcb] <;> rfl

theorem handleEvent_eq (p : Ptr) (h : Handlers) (s : Batch) : Channel.handleEvent p h s =
    Channel.setEventHandling false p (performAll (Channel.setEventHandling true p s)
      (performed (s.reactor.channel p) h)) := by
  have hset : ∀ b t, Channel.bound ((Channel.setEventHandling b p t).reactor.channel p) =
      Channel.bound (t.reactor.channel p) := fun b t => setEventHandling_bound b p t p
  have hperform : ∀ t l, Channel.bound ((performAll t l).reactor.channel p) =
      Channel.bound (t.reactor.channel p) := fun t l => performAll_bound t l p
  have hrev : ∀ t : Batch, (t.reactor.channel p).revents_ =
      (Channel.bound (t.reactor.channel p)).revents_ := fun _ => rfl
  have hclose : ∀ t : Batch, (t.reactor.channel p).closeCallback_ =
      (Channel.bound (t.reactor.channel p)).closeCallback_ := fun _ => rfl
  have herror : ∀ t : Batch, (t.reactor.channel p).errorCallback_ =
      (Channel.bound (t.reactor.channel p)).errorCallback_ := fun _ => rfl
  have hread : ∀ t : Batch, (t.reactor.channel p).readCallback_ =
      (Channel.bound (t.reactor.channel p)).readCallback_ := fun _ => rfl
  have hwrite : ∀ t : Batch, (t.reactor.channel p).writeCallback_ =
      (Channel.bound (t.reactor.channel p)).writeCallback_ := fun _ => rfl
  simp only [Channel.handleEvent, invoke_eq, performed, performAll_append,
    hrev, hclose, herror, hread, hwrite, hset, hperform]

theorem performAll_removed (s : Batch) (actions : List Action) :
    (performAll s actions).removed = actions.foldl Action.mark s.removed := by
  induction actions generalizing s with
  | nil => rfl
  | cons a actions ih => exact ih (a.run s)

theorem restores_cons (p : Ptr) (a : Action) (actions : List Action) :
    Restores p (a :: actions) ↔
      (a.removes p = true → ∃ x ∈ actions, x.registers p = true) ∧ Restores p actions := by
  constructor
  · exact fun h => ⟨h [] a actions rfl, fun before x after hsplit =>
      h (a :: before) x after (congrArg (a :: ·) hsplit)⟩
  · rintro ⟨hfirst, hrest⟩ before x after hsplit
    cases before with
    | nil =>
      obtain ⟨rfl, rfl⟩ := List.cons.inj hsplit
      exact hfirst
    | cons b before => exact hrest before x after (List.cons.inj hsplit).2

theorem mark_iff (p : Ptr) (removed : Ptr → Bool) (actions : List Action) :
    actions.foldl Action.mark removed p = false ↔ Restores p actions ∧
      (removed p = true → ∃ x ∈ actions, x.registers p = true) := by
  induction actions generalizing removed with
  | nil => simp [Restores]
  | cons a actions ih =>
    have hmark : Action.mark removed a p = true ↔
        a.removes p = true ∨ removed p = true ∧ ¬a.registers p = true := by
      simp [Action.mark]
    rw [List.foldl_cons, ih, hmark, restores_cons, List.exists_mem_cons_iff]
    tauto

theorem handles_run {b t : Batch} {turns : List (Ptr × Handlers)} (h : Run Handles b turns t) :
    SameBound b.reactor t.reactor ∧
      t.removed = (performedBy b.reactor turns).foldl Action.mark b.removed := by
  induction h with
  | refl _ => exact ⟨fun _ => rfl, rfl⟩
  | @next b u t a turns hstep _ ih =>
    obtain ⟨p, h⟩ := a
    have hu : u = Channel.setEventHandling false p (performAll
        (Channel.setEventHandling true p b) (performed (b.reactor.channel p) h)) :=
      hstep.trans (handleEvent_eq p h b)
    have hbound : SameBound b.reactor u.reactor := by
      rw [hu]
      exact ((setEventHandling_bound true p b).trans (performAll_bound _ _)).trans
        (setEventHandling_bound false p _)
    have hremoved : u.removed =
        (performed (b.reactor.channel p) h).foldl Action.mark b.removed := by
      rw [hu]
      exact performAll_removed (Channel.setEventHandling true p b) _
    have hlater : performedBy u.reactor turns = performedBy b.reactor turns := by
      unfold performedBy
      congr 1
      funext a
      exact performed_bound (hbound a.1) a.2
    refine ⟨hbound.trans ih.1, ?_⟩
    rw [ih.2, hlater, hremoved]
    exact List.foldl_append.symm

theorem handles_total (b : Batch) (turns : List (Ptr × Handlers)) :
    ∃ t, Run Handles b turns t := by
  induction turns generalizing b with
  | nil => exact ⟨b, .refl b⟩
  | cons a turns ih =>
    obtain ⟨t, ht⟩ := ih (Channel.handleEvent a.1 a.2 b)
    exact ⟨t, .next rfl ht⟩

theorem skips_iff_restores (s : Loop) (it : Iteration) (t : Loop) :
    SkipsRemoved s it t ↔ RestoresLater s it := by
  have hmark : ∀ p actions, actions.foldl Action.mark (it.batch s).removed p = false ↔
      Restores p actions := by
    intro p actions
    rw [mark_iff]
    exact and_iff_left fun h => absurd h Bool.false_ne_true
  rw [SkipsRemoved, eachStep_iff_run]
  constructor
  · intro h before a after hsplit
    obtain ⟨b, hb⟩ := handles_total (it.batch s) before
    have hskip := h before a after b _ hsplit hb rfl
    rw [(handles_run hb).2, hmark] at hskip
    exact hskip
  · intro h before a after b _ hsplit hb _
    rw [(handles_run hb).2, hmark]
    exact h before a after hsplit

/-- In every run of the loop, for all batches and handlers, no removed Channel is dispatched
exactly when the handlers restore what they remove of the Channels behind them. -/
theorem removed_not_handled (s : Loop) (its : List Iteration) :
    EachStep Iterates SkipsRemoved s its ↔
      EachStep Iterates (fun s it _ => RestoresLater s it) s its := by
  refine eachStep_iff_eachStep (I := fun _ => True) (G := fun _ _ _ => True) ?_ ?_ trivial
  · exact fun s it t _ _ _ => ⟨skips_iff_restores s it t, fun _ => trivial⟩
  · exact EachStep.of_labels (fun _ _ => trivial) s

def twoConnections : Loop :=
  let channel (p : Ptr) : PollerModel.Channel :=
    { PollerModel.Channel.new (5 + p) with readCallback_ := some .handleRead }
  let r : Reactor := ⟨⟨fun _ => some .other, fun _ => none, 2, [], 0⟩, channel, fun _ => none,
    Poller.initialEvents⟩
  ⟨PollerModel.Channel.enableReading 1 (PollerModel.Channel.enableReading 0 r), false⟩

/-- Both become readable, and the first handler closes the second connection. -/
def firstClosesSecond : Iteration :=
  ⟨.ready [⟨EPOLLIN, 0⟩, ⟨EPOLLIN, 1⟩],
    fun i => if i = 0 then ⟨[], [], [.close 6, .channelOp 1 .remove], []⟩
      else ⟨[], [], [.channelOp 1 .enableWriting], []⟩, []⟩

theorem removed_handled : ∃ first second b t,
    firstClosesSecond.turns twoConnections = [(0, first), (1, second)] ∧
    Run Handles (firstClosesSecond.batch twoConnections) [(0, first)] b ∧
    b.reactor.channels_ 6 = none ∧ b.reactor.kernel.interest 6 = none ∧ b.removed 1 = true ∧
    performed (b.reactor.channel 1) second = [.channelOp 1 .enableWriting] ∧
    Iterates twoConnections firstClosesSecond t ∧
    ¬EachStep Iterates SkipsRemoved twoConnections [firstClosesSecond] := by
  let first := firstClosesSecond.handlers 0
  let second := firstClosesSecond.handlers 1
  let b := Channel.handleEvent 0 first (firstClosesSecond.batch twoConnections)
  have hturns : firstClosesSecond.turns twoConnections = [(0, first), (1, second)] := rfl
  have hrun : Run Handles (firstClosesSecond.batch twoConnections) [(0, first)] b :=
    .next rfl (.refl b)
  have hremoved : b.removed 1 = true := by decide +kernel
  have htables : b.reactor.channels_ 6 = none ∧ b.reactor.kernel.interest 6 = none := by
    decide +kernel
  have hperformed : performed (b.reactor.channel 1) second = [.channelOp 1 .enableWriting] := by
    decide +kernel
  refine ⟨first, second, b, _, hturns, hrun, htables.1, htables.2, hremoved, hperformed,
    ⟨rfl, rfl⟩, fun h => ?_⟩
  have hskip := (eachStep_iff_run _ _ _).mp (h _ ⟨rfl, rfl⟩).1 [(0, first)] (1, second) [] b _
    hturns hrun rfl
  exact Bool.false_ne_true (hskip.symm.trans hremoved)

end NetPrograms.LoopDispatch
