import Ia64.Efi.EventTimers

/-! Events, their notification queue and the dispatcher, which notification functions may enter
again. -/

namespace Ia64.Efi.Events

open Function

/-- A slot of the event table; a handle is the address of a slot. -/
abbrev Slot := Fin 16

/-- A group GUID, its first byte the most significant. -/
abbrev GroupGuid := BitVec 128

/-- The type bit of events with a timer. -/
def evtTimer : BitVec 32 := 0x80000000
/-- The type bit of events whose function is queued when a caller waits. -/
def evtNotifyWait : BitVec 32 := 0x100
/-- The type bit of events whose function is queued when they are signaled. -/
def evtNotifySignal : BitVec 32 := 0x200
/-- The types that CreateEvent alone accepts. -/
def evtSignalExitBootServices : BitVec 32 := 0x201
@[inherit_doc evtSignalExitBootServices]
def evtSignalVirtualAddressChange : BitVec 32 := 0x60000202
/-- The bits of all other types. -/
def evtLegal : BitVec 32 :=
  0x80000000 ||| 0x40000000 ||| 0x20000000 ||| evtNotifyWait ||| evtNotifySignal

/-- The group of the events of type `evtSignalExitBootServices`. -/
def exitBootServicesGroup : GroupGuid := 0x55f0ab27b8b1264c8048748f37baa2df
/-- The group of the events of type `evtSignalVirtualAddressChange`. -/
def virtualAddressChangeGroup : GroupGuid := 0x9876fa1331c8c74987ea8f43fcc25196

/-- A record of the event table. -/
structure EventRecord where
  /-- Whether the slot has the signature of an event. -/
  isOpen : Bool
  type : BitVec 32
  signaled : Bool
  timer : Timer
  notifyTpl : Nat
  /-- The function descriptor to call: the record's own copy, named by the slot that holds it. -/
  notifyFunction : Option Slot
  notifyContext : BitVec 64
  group : Option GroupGuid
  /-- The number of the creation, which tells apart the events that a slot holds one after
  another. -/
  serial : Nat
deriving DecidableEq, Repr

/-- A slot that holds no event. -/
def EventRecord.closed (serial : Nat) : EventRecord :=
  ⟨false, 0, false, .idle, 0, none, 0, none, serial⟩

/-- Whether signaling the event queues its function. -/
def EventRecord.notifiesSignal (event : EventRecord) : Bool := event.type &&& evtNotifySignal != 0

/-- A notification in the queue. -/
structure NotifyRecord where
  inUse : Bool
  event : Slot
  notifyTpl : Nat
  notifyFunction : Option Slot
  notifyContext : BitVec 64
  /-- Its number among all notifications, of which the source keeps the low 64 bits. -/
  order : Nat
  /-- The number of the creation of the event that was signaled. -/
  serial : Nat
deriving DecidableEq, Repr

/-- A free place of the queue. -/
def NotifyRecord.free : NotifyRecord := ⟨false, 0, 0, none, 0, 0, 0⟩

/-- What a function that is still on the stack of calls will do. -/
inductive Frame where
  /-- A dispatcher, which looks for the next notification. -/
  | dispatching
  /-- A notification function, after which its dispatcher sets the task priority to the old one. -/
  | running (oldTpl : Nat)
deriving DecidableEq, Repr

/-- The state of the event services. -/
structure State where
  records : Slot → EventRecord
  queue : Fin 32 → NotifyRecord
  notifyOrder : Nat
  currentTpl : Nat
  control : List Frame
  /-- How many events were created, and the numbers of those that were closed. -/
  created : Nat
  closed : List Nat

/-- The events of the console wait for keys and have no function; no other event is open at
first. -/
def State.initial : State where
  records slot := if slot.val < 2 then { EventRecord.closed slot with
    isOpen := true, type := evtNotifyWait } else .closed 0
  queue _ := .free
  notifyOrder := 0
  currentTpl := 4
  control := []
  created := 2
  closed := []

section

variable (s : State)

/-- Enter a notification in the queue, unless the event has one there. -/
def State.queueNotify (slot : Slot) : State :=
  let event := s.records slot
  if event.notifyFunction = none then s
  else if ∃ i, (s.queue i).inUse ∧ (s.queue i).event = slot then s
  else match (List.finRange 32).find? fun i => !(s.queue i).inUse with
    | none => s
    | some i => { s with
        queue := update s.queue i
          ⟨true, slot, event.notifyTpl, event.notifyFunction, event.notifyContext,
            s.notifyOrder, event.serial⟩
        notifyOrder := s.notifyOrder + 1 }

/-- Change a record. -/
def State.write (slot : Slot) (event : EventRecord) : State :=
  { s with records := update s.records slot event }

/-- Mark an event as signaled, and queue its function if signaling does that. -/
def State.mark (slot : Slot) : State :=
  let event := s.records slot
  let s := s.write slot { event with signaled := true }
  if event.notifiesSignal then s.queueNotify slot else s

/-- Signal one event. -/
def State.signalRecord (slot : Slot) : State :=
  if !(s.records slot).isOpen || (s.records slot).signaled then s else s.mark slot

/-- Signal the events of a list that satisfy a condition. -/
def State.signalAll (slots : List Slot) (condition : EventRecord → Bool) : State :=
  slots.foldl (fun s slot =>
    if (s.records slot).isOpen && condition (s.records slot) then s.signalRecord slot else s) s

/-- A dispatcher is called. -/
def State.dispatch : State := { s with control := .dispatching :: s.control }

/-- The dispatcher's choice between its best notification so far and the next one. -/
def State.better (best : Option (Fin 32)) (i : Fin 32) : Option (Fin 32) :=
  if !(s.queue i).inUse || (s.queue i).notifyTpl ≤ s.currentTpl then best
  else match best with
    | none => some i
    | some b =>
      if (s.queue b).notifyTpl < (s.queue i).notifyTpl ∨
          (s.queue i).notifyTpl = (s.queue b).notifyTpl ∧
            (s.queue i).order % 2 ^ 64 < (s.queue b).order % 2 ^ 64 then some i
      else best

/-- The notification that the dispatcher takes next. -/
def State.selected : Option (Fin 32) := (List.finRange 32).foldl s.better none

/-- Whether the dispatcher calls the function of a notification that it took. -/
def State.calls (i : Fin 32) : Bool :=
  let event := s.records (s.queue i).event
  event.isOpen && event.notifyFunction == (s.queue i).notifyFunction

/-- The dispatcher takes a notification and enters its function. -/
def State.deliver (i : Fin 32) : State :=
  let taken := s.queue i
  let event := s.records taken.event
  let rest := { s with queue := update s.queue i { taken with inUse := false } }
  if s.calls i then
    let rest :=
      if event.notifiesSignal then rest.write taken.event { event with signaled := false } else rest
    { rest with currentTpl := taken.notifyTpl, control := .running s.currentTpl :: s.control }
  else rest

variable (type : BitVec 32)

/-- Whether an event of a type may be created. -/
def eventTypeValid (createEventEx : Bool) : Bool :=
  if type = evtSignalExitBootServices ∨ type = evtSignalVirtualAddressChange then !createEventEx
  else type &&& ~~~evtLegal == 0 &&
    type &&& (evtNotifyWait ||| evtNotifySignal) != evtNotifyWait ||| evtNotifySignal

/-- The parameters that CreateEvent accepts; an event with a function runs it at TPL_CALLBACK or
TPL_NOTIFY. -/
def eventValidateCreate (notifyTpl : Nat)
    (hasFunction createEventEx : Bool) : Bool :=
  eventTypeValid type createEventEx &&
    (type &&& (evtNotifyWait ||| evtNotifySignal) == 0 ||
      hasFunction && (notifyTpl == 8 || notifyTpl == 16))

/-- The group that a new event joins. -/
def effectiveGroup (group : Option GroupGuid) : Option GroupGuid :=
  if group = none ∧ type = evtSignalExitBootServices then some exitBootServicesGroup
  else if group = none ∧ type = evtSignalVirtualAddressChange then some virtualAddressChangeGroup
  else group

/-- Create an event in the first free slot. -/
def State.create (notifyTpl : Nat) (hasFunction : Bool) (context : BitVec 64)
    (group : Option GroupGuid) (createEventEx : Bool) : State :=
  if eventValidateCreate type notifyTpl hasFunction createEventEx then
    match (List.finRange 16).find? fun slot => !(s.records slot).isOpen with
    | none => s
    | some slot =>
      let event : EventRecord :=
        { EventRecord.closed s.created with
          isOpen := true, type, group := effectiveGroup type group }
      let event := if type &&& (evtNotifyWait ||| evtNotifySignal) != 0 then
        { event with notifyTpl, notifyFunction := some slot, notifyContext := context } else event
      { s.write slot event with created := s.created + 1 }
  else s

/-- Close an event, and remove its notifications from the queue. -/
def State.close (slot : Slot) : State :=
  if (s.records slot).isOpen then
    { s.write slot (.closed (s.records slot).serial) with
      queue := fun i => if (s.queue i).inUse && (s.queue i).event == slot then .free else s.queue i
      closed := (s.records slot).serial :: s.closed }
  else s

/-- The calls of the event services; those that take a handle find no event at a closed slot. -/
inductive Call where
  | create (type : BitVec 32) (notifyTpl : Nat) (hasFunction : Bool) (context : BitVec 64)
    (group : Option GroupGuid)
      (createEventEx : Bool)
  | close (slot : Slot)
  | signal (slot : Slot)
  | signalGroup (group : GroupGuid)
  | signalGroupAndType (group : GroupGuid) (type : BitVec 32)
  /-- The notifications of an installed protocol, for the events that were registered for it. -/
  | signalRegistered (slots : List Slot)
  | setTimer (slot : Slot) (type : TimerType) (now : BitVec 64) (triggerTime : Nat)
  | cancelAllTimers
  /-- A look at one timer; polling looks at all of them one after another. -/
  | timerExpired (slot : Slot) (ticksPer100ns : Nat) (now : BitVec 64)
  | raiseTpl (tpl : Nat)
  | restoreTpl (tpl : Nat)
deriving DecidableEq, Repr

/-- Look at the timer of an event. -/
def State.timerExpired (slot : Slot) (ticksPer100ns : Nat) (now : BitVec 64) : State :=
  let event := s.records slot
  if event.isOpen && event.timer.active then
    let (expired, timer) := event.timer.consume ticksPer100ns now
    let s := s.write slot { event with timer }
    if !expired || event.signaled then s
    else if event.notifiesSignal then (s.mark slot).dispatch else s.mark slot
  else s

/-- Signal an event, or all events of its group. -/
def State.signal (slot : Slot) : State :=
  if (s.records slot).isOpen then
    match (s.records slot).group with
    | none => (s.signalRecord slot).dispatch
    -- The event is in its own group, so that the loop signals it too.
    | some group => (s.signalAll (List.finRange 16) (·.group == some group)).dispatch
  else s

/-- The body of a call, up to the dispatcher that it may end with. -/
def State.call : Call → State
  | .create type notifyTpl hasFunction context group createEventEx =>
    s.create type notifyTpl hasFunction context group createEventEx
  | .close slot => s.close slot
  | .signal slot => s.signal slot
  | .signalGroup group => (s.signalAll (List.finRange 16) (·.group == some group)).dispatch
  | .signalGroupAndType group type =>
    (s.signalAll (List.finRange 16) fun event => event.type == type ||
      event.group == some group).dispatch
  | .signalRegistered slots => (s.signalAll slots fun _ => true).dispatch
  | .setTimer slot type now triggerTime =>
    if (s.records slot).isOpen && (s.records slot).type &&& evtTimer != 0 then
      s.write slot { s.records slot with timer := setTimer type now triggerTime } else s
  | .cancelAllTimers => { s with
      records := fun slot => if (s.records slot).isOpen then { s.records slot with timer := .idle }
        else s.records slot }
  | .timerExpired slot ticksPer100ns now => s.timerExpired slot ticksPer100ns now
  | .raiseTpl tpl => { s with currentTpl := max tpl s.currentTpl }
  | .restoreTpl tpl => { s with currentTpl := tpl }.dispatch

/-- What happens next: the running function calls a service or returns, or the innermost dispatcher
goes on. -/
inductive Move where
  | call (service : Call)
  | finish
  | dispatcher
deriving DecidableEq, Repr

/-- One move; a move that is not due changes nothing. -/
def State.step (move : Move) : State :=
  match move, s.control with
  | .dispatcher, .dispatching :: callers =>
    match s.selected with
    | none => { s with control := callers }
    | some i => s.deliver i
  | .finish, .running oldTpl :: callers => { s with currentTpl := oldTpl, control := callers }
  | .call _, .dispatching :: _ => s
  | .call service, _ => s.call service
  | _, _ => s

/-- The state after some moves. -/
def State.run (moves : List Move) : State := moves.foldl State.step s

end

section Ledger

/-- What identifies an event and its notifications. -/
structure Identity where
  isOpen : Bool
  notifies : Bool
  notifyTpl : Nat
  notifyFunction : Option Slot
  serial : Nat

/-- The queue, with what it depends on in the events. -/
structure Ledger where
  events : Slot → Identity
  /-- Whether a notification of the event is due. -/
  pending : Slot → Bool
  queue : Fin 32 → NotifyRecord
  notifyOrder : Nat
  created : Nat
  closed : List Nat

/-- A notification is that of an event. -/
def NotifyRecord.Describes (entry : NotifyRecord) (event : Identity) : Prop :=
  entry.notifyTpl = event.notifyTpl ∧ entry.notifyFunction = event.notifyFunction ∧
    entry.serial = event.serial

/-- Each due notification is in the queue once, nothing else is, and the numbers of open events are
their own. -/
structure Ledger.Consistent (l : Ledger) : Prop where
  due : ∀ slot, l.pending slot → (l.events slot).isOpen
  queued : ∀ slot, l.pending slot → ∃ i, (l.queue i).inUse ∧ (l.queue i).event = slot
  entry : ∀ i, (l.queue i).inUse →
    l.pending (l.queue i).event ∧ (l.queue i).Describes (l.events (l.queue i).event)
  unique : ∀ i j, (l.queue i).inUse → (l.queue j).inUse →
    (l.queue i).event = (l.queue j).event → i = j
  numbered : ∀ i, (l.queue i).inUse → (l.queue i).order < l.notifyOrder
  ordered : ∀ i j, (l.queue i).inUse → (l.queue j).inUse →
    (l.queue i).order = (l.queue j).order → i = j
  callable : ∀ slot, (l.events slot).isOpen → (l.events slot).notifies →
    (l.events slot).notifyFunction = some slot
  living : ∀ slot, (l.events slot).isOpen → (l.events slot).serial < l.created ∧
    (l.events slot).serial ∉ l.closed
  distinct : ∀ slot other, (l.events slot).isOpen → (l.events other).isOpen →
    (l.events slot).serial = (l.events other).serial → slot = other
  past : ∀ number ∈ l.closed, number < l.created

variable {l : Ledger} {slot : Slot} {i : Fin 32}

section

variable (good : l.Consistent)

include good

theorem Ledger.Consistent.exists_free : ∃ i, (l.queue i).inUse = false := by
  by_contra full
  simp only [not_exists, Bool.not_eq_false] at full
  have few := Fintype.card_le_of_injective (fun i => (l.queue i).event)
    fun i j same => good.unique i j (full i) (full j) same
  rw [Fintype.card_fin, Fintype.card_fin] at few
  omega

theorem Ledger.Consistent.not_queued (absent : l.pending slot = false) :
    ∀ i, (l.queue i).inUse → (l.queue i).event ≠ slot := by
  intro i used equal
  have due := (good.entry i used).1
  rw [equal, absent] at due
  exact Bool.noConfusion due

/-- A notification becomes due and is entered. -/
theorem Ledger.Consistent.enter {added : NotifyRecord} (free : (l.queue i).inUse = false)
    (absent : l.pending slot = false) (opened : (l.events slot).isOpen) (used : added.inUse)
    (its : added.event = slot) (describes : added.Describes (l.events slot))
    (order : added.order = l.notifyOrder) :
    Ledger.Consistent { l with
      pending := update l.pending slot true, queue := update l.queue i added
      notifyOrder := l.notifyOrder + 1 } := by
  have others := good.not_queued absent
  refine ⟨?_, ?_, ?_, ?_, ?_, ?_, good.callable, good.living, good.distinct, good.past⟩ <;>
    simp only [update_apply]
  · intro other
    split_ifs with same
    · exact fun _ => same ▸ opened
    · exact good.due other
  · intro other
    split_ifs with same
    · exact fun _ => ⟨i, by simp [used, its, same]⟩
    · intro pending
      obtain ⟨j, used, event⟩ := good.queued other pending
      have elsewhere : j ≠ i := by
        rintro rfl
        simp [free] at used
      exact ⟨j, by simp [elsewhere, used, event]⟩
  · intro j
    by_cases here : j = i <;> simp only [here, if_true, if_false]
    · exact fun _ => by simpa [its] using describes
    · intro used
      simpa [others j used] using good.entry j used
  · intro j k
    split_ifs with first second second
    · exact fun _ _ _ => first.trans second.symm
    · exact fun _ used same => absurd (same.symm.trans its) (others k used)
    · exact fun used _ same => absurd (same.trans its) (others j used)
    · exact good.unique j k
  · intro j
    split_ifs with here
    · exact fun _ => by omega
    · exact fun used => Nat.lt_succ_of_lt (good.numbered j used)
  · intro j k
    split_ifs with first second second
    · exact fun _ _ _ => first.trans second.symm
    · exact fun _ used same => absurd (order.symm.trans same) (Nat.ne_of_gt (good.numbered k used))
    · exact fun used _ same => absurd (same.trans order) (Nat.ne_of_lt (good.numbered j used))
    · exact good.ordered j k

theorem Ledger.Consistent.release {queue : Fin 32 → NotifyRecord} {pending : Slot → Bool}
    (kept : ∀ i, (queue i).inUse → queue i = l.queue i ∧ pending (l.queue i).event)
    (fewer : ∀ slot, pending slot → l.pending slot)
    (still : ∀ i, (l.queue i).inUse → pending (l.queue i).event → queue i = l.queue i) :
    Ledger.Consistent { l with pending, queue } := by
  have used : ∀ i, (queue i).inUse → (l.queue i).inUse := fun i used => (kept i used).1 ▸ used
  refine ⟨fun slot due => good.due slot (fewer slot due), ?_, ?_, ?_, ?_, ?_,
    good.callable, good.living, good.distinct, good.past⟩
  · intro slot due
    obtain ⟨i, used, rfl⟩ := good.queued slot (fewer slot due)
    have same := still i used due
    exact ⟨i, by simp [same, used]⟩
  · intro i here
    simp only [(kept i here).1]
    exact ⟨(kept i here).2, (good.entry i (used i here)).2⟩
  · intro i j first second
    simp only [(kept i first).1, (kept j second).1]
    exact good.unique i j (used i first) (used j second)
  · intro i here
    simp only [(kept i here).1]
    exact good.numbered i (used i here)
  · intro i j first second
    simp only [(kept i first).1, (kept j second).1]
    exact good.ordered i j (used i first) (used j second)

/-- A new event gets a number of its own. -/
theorem Ledger.Consistent.add {event : Identity} (closed : (l.events slot).isOpen = false)
    (callable : event.notifies → event.notifyFunction = some slot)
    (serial : event.serial = l.created) :
    Ledger.Consistent { l with
      events := update l.events slot event, created := l.created + 1 } := by
  -- The events of queued and of due notifications are open, hence in other slots.
  have others : ∀ other, (l.events other).isOpen → other ≠ slot := by
    rintro other opened rfl
    simp [closed] at opened
  have fresh : ∀ other, (l.events other).isOpen → (l.events other).serial ≠ l.created :=
    fun other opened => Nat.ne_of_lt (good.living other opened).1
  refine ⟨fun other due => ?_, good.queued, fun i used => ?_, good.unique, good.numbered,
    good.ordered, ?_, ?_, ?_, ?_⟩
  · have opened := good.due other due
    simpa [others other opened] using opened
  · have entry := good.entry i used
    simpa [others _ (good.due _ entry.1)] using entry
  · intro other
    simp only [update_apply]
    split_ifs with same
    · exact fun _ notifies => same ▸ callable notifies
    · exact good.callable other
  · intro other
    simp only [update_apply]
    split_ifs with same
    · exact fun _ => ⟨by omega, fun old => Nat.lt_irrefl _ (serial ▸ good.past _ old)⟩
    · exact fun opened =>
        ⟨Nat.lt_succ_of_lt (good.living other opened).1, (good.living other opened).2⟩
  · intro first second
    simp only [update_apply]
    split_ifs with here there there
    · exact fun _ _ _ => here.trans there.symm
    · exact fun _ opened same => absurd (same.symm.trans serial) (fresh second opened)
    · exact fun opened _ same => absurd (same.trans serial) (fresh first opened)
    · exact good.distinct first second
  · exact fun number old => Nat.lt_succ_of_lt (good.past number old)

/-- A closed event takes its number with it. -/
theorem Ledger.Consistent.remove (event : Identity) (idle : l.pending slot = false)
    (opened : (l.events slot).isOpen) (closed : event.isOpen = false) :
    Ledger.Consistent { l with
      events := update l.events slot event, closed := (l.events slot).serial :: l.closed } := by
  have others : ∀ other, l.pending other → other ≠ slot := by
    rintro other due rfl
    simp [idle] at due
  refine ⟨fun other due => ?_, good.queued, fun i used => ?_, good.unique, good.numbered,
    good.ordered, ?_, ?_, ?_, ?_⟩
  · simpa [others other due] using good.due other due
  · have entry := good.entry i used
    simpa [others _ entry.1] using entry
  · intro other
    by_cases same : other = slot
    · simp [same, closed]
    · simpa [same] using good.callable other
  · intro other
    by_cases same : other = slot
    · simp [same, closed]
    · intro living
      simp only [update_of_ne same] at living ⊢
      refine ⟨(good.living other living).1, ?_⟩
      rw [List.mem_cons, not_or]
      exact ⟨fun equal => same (good.distinct other slot living opened equal),
        (good.living other living).2⟩
  · intro first second
    simp only [update_apply]
    split_ifs with here there there
    · exact fun _ _ _ => here.trans there.symm
    · exact fun absent => absurd absent (by simp [closed])
    · exact fun _ absent => absurd absent (by simp [closed])
    · exact good.distinct first second
  · rintro number (_ | ⟨_, old⟩)
    · exact (good.living slot opened).1
    · exact good.past number old

end

end Ledger

/-- The identity of the event that a record holds. -/
def EventRecord.identity (event : EventRecord) : Identity :=
  ⟨event.isOpen, event.notifiesSignal, event.notifyTpl, event.notifyFunction, event.serial⟩

/-- A notification is due for a signaled event that notifies. -/
def EventRecord.pending (event : EventRecord) : Bool :=
  event.isOpen && event.notifiesSignal && event.signaled

/-- The ledger of a state. -/
def State.ledger (s : State) : Ledger :=
  ⟨EventRecord.identity ∘ s.records, EventRecord.pending ∘ s.records, s.queue, s.notifyOrder,
    s.created, s.closed⟩

section Steps

variable {s : State} {slot : Slot} {i : Fin 32}

theorem consistent_initial : State.initial.ledger.Consistent where
  due := by decide
  queued := by decide
  entry i used := by simp [State.ledger, State.initial, NotifyRecord.free] at used
  unique i j used := by simp [State.ledger, State.initial, NotifyRecord.free] at used
  numbered i used := by simp [State.ledger, State.initial, NotifyRecord.free] at used
  ordered i j used := by simp [State.ledger, State.initial, NotifyRecord.free] at used
  callable := by decide
  living := by decide
  distinct := by decide
  past number old := by simp [State.ledger, State.initial] at old

theorem ledger_write (event : EventRecord) : (s.write slot event).ledger = { s.ledger with
    events := update s.ledger.events slot event.identity
    pending := update s.ledger.pending slot event.pending } := by
  simp only [State.ledger, State.write, comp_update]

variable {event : EventRecord}

theorem ledger_write_same (identity : event.identity = (s.records slot).identity)
    (pending : event.pending = (s.records slot).pending) :
    (s.write slot event).ledger = s.ledger := by
  have events : update s.ledger.events slot event.identity = s.ledger.events :=
    update_eq_self_iff.2 identity
  have due : update s.ledger.pending slot event.pending = s.ledger.pending :=
    update_eq_self_iff.2 pending
  rw [ledger_write, events, due]

theorem ledger_write_signaled (opened : (s.records slot).isOpen)
    (notifies : (s.records slot).notifiesSignal) (signaled : Bool) :
    (s.write slot { s.records slot with signaled }).ledger =
      { s.ledger with pending := update s.ledger.pending slot signaled } := by
  have events :
      update s.ledger.events slot (EventRecord.identity { s.records slot with signaled }) =
      s.ledger.events := update_eq_self_iff.2 rfl
  have due : EventRecord.pending { s.records slot with signaled } = signaled := by
    have parts : EventRecord.pending { s.records slot with signaled } =
      ((s.records slot).isOpen && (s.records slot).notifiesSignal && signaled) := rfl
    rw [parts, opened, notifies, Bool.true_and, Bool.true_and]
  rw [ledger_write, events, due]

/-- A notification goes to a free place. -/
theorem queueNotify_eq (known : s.records slot = event) (function : event.notifyFunction ≠ none)
    (absent : ∀ i, (s.queue i).inUse → (s.queue i).event ≠ slot)
    (room : ∃ i, (s.queue i).inUse = false) :
    ∃ i, (s.queue i).inUse = false ∧ s.queueNotify slot = { s with
      queue := update s.queue i
        ⟨true, slot, event.notifyTpl, event.notifyFunction, event.notifyContext,
          s.notifyOrder, event.serial⟩
      notifyOrder := s.notifyOrder + 1 } := by
  subst known
  rw [State.queueNotify, if_neg function, if_neg (by simpa using absent)]
  cases found : (List.finRange 32).find? fun i => !(s.queue i).inUse with
  | none =>
    obtain ⟨i, free⟩ := room
    simp [List.find?_eq_none] at found
    simp [found i] at free
  | some i =>
    have free := List.find?_some found
    exact ⟨i, by simpa using free, rfl⟩

section

variable (good : s.ledger.Consistent)

include good

/-- Marking an open event that is not signaled yet. -/
theorem mark_consistent (opened : (s.records slot).isOpen)
    (fresh : (s.records slot).signaled = false) : (s.mark slot).ledger.Consistent := by
  have idle : (s.records slot).pending = false := by simp [EventRecord.pending, fresh]
  rw [State.mark]
  cases notifies : (s.records slot).notifiesSignal with
  | false =>
    rw [if_neg Bool.false_ne_true, ledger_write_same]
    · exact good
    · rfl
    · rw [idle]
      simpa [EventRecord.pending, EventRecord.notifiesSignal] using fun _ => notifies
  | true =>
    -- The function is there, and the notification is not due before the event is marked.
    have function : (s.records slot).notifyFunction = some slot :=
      good.callable slot opened notifies
    obtain ⟨i, free, entered⟩ := queueNotify_eq
      (s := s.write slot { s.records slot with signaled := true }) (update_self ..)
      (by simp [function]) (good.not_queued idle) good.exists_free
    rw [if_pos rfl, entered]
    let added : NotifyRecord :=
      ⟨true, slot, (s.records slot).notifyTpl, (s.records slot).notifyFunction,
        (s.records slot).notifyContext, s.notifyOrder, (s.records slot).serial⟩
    have ledger := congrArg (fun l : Ledger => { l with
      queue := update s.queue i added, notifyOrder := s.notifyOrder + 1 })
      (ledger_write_signaled opened notifies true)
    exact (congrArg Ledger.Consistent ledger).mpr
      (good.enter free idle opened rfl rfl ⟨rfl, rfl, rfl⟩ rfl)

theorem signalRecord_consistent : (s.signalRecord slot).ledger.Consistent := by
  rw [State.signalRecord]
  split_ifs with skipped
  · exact good
  · simp only [Bool.or_eq_true, Bool.not_eq_true', not_or, Bool.not_eq_false,
      Bool.not_eq_true] at skipped
    exact mark_consistent good skipped.1 skipped.2

theorem signalAll_consistent (slots : List Slot) (condition : EventRecord → Bool) :
    (s.signalAll slots condition).ledger.Consistent := by
  induction slots generalizing s with
  | nil => exact good
  | cons slot rest ih =>
    rw [State.signalAll, List.foldl_cons]
    apply ih
    split_ifs with included
    · exact signalRecord_consistent good
    · exact good

theorem timerExpired_consistent (ticks : Nat) (now : BitVec 64) :
    (s.timerExpired slot ticks now).ledger.Consistent := by
  have timed : ∀ timer : Timer, (s.write slot { s.records slot with timer }).ledger = s.ledger :=
    fun timer => ledger_write_same rfl rfl
  rw [State.timerExpired]
  split
  · rename_i active
    simp only [Bool.and_eq_true] at active
    have marked : ∀ timer : Timer, (s.records slot).signaled = false →
        ((s.write slot { s.records slot with timer }).mark slot).ledger.Consistent := by
      intro timer fresh
      apply mark_consistent
      · rw [timed]
        exact good
      · simpa [State.write] using active.1
      · simpa [State.write] using fresh
    dsimp only
    split_ifs with quiet notifies
    · rw [timed]
      exact good
    all_goals
      simp only [Bool.or_eq_true, Bool.not_eq_true', not_or, Bool.not_eq_true] at quiet
      exact marked _ quiet.2
  · exact good

/-- A closed event takes its notifications with it. -/
theorem close_consistent : (s.close slot).ledger.Consistent := by
  rw [State.close]
  split_ifs with opened
  · have released : Ledger.Consistent { s.ledger with
        pending := update s.ledger.pending slot false
        queue := fun i =>
          if (s.queue i).inUse && (s.queue i).event == slot then .free else s.queue i } := by
      apply good.release
      · intro i used
        split_ifs at used ⊢ with its
        · simp [NotifyRecord.free] at used
        · have other : (s.queue i).event ≠ slot := by simpa [used] using its
          exact ⟨rfl, by simpa [State.ledger, other] using (good.entry i used).1⟩
      · intro other
        by_cases same : other = slot <;> simp [same]
      · intro i used due
        have other : (s.queue i).event ≠ slot := by
          intro same
          simp [State.ledger, same] at due
        simp [State.ledger, other]
    have removed := released.remove (EventRecord.closed (s.records slot).serial).identity
      (update_self slot false s.ledger.pending) opened rfl
    rw [State.ledger, State.write, comp_update, comp_update]
    exact removed
  · exact good

theorem add_consistent (closed : (s.records slot).isOpen = false)
    (idle : event.pending = false)
    (callable : event.notifiesSignal → event.notifyFunction = some slot)
    (serial : event.serial = s.created) :
    (State.ledger { s.write slot event with created := s.created + 1 }).Consistent := by
  have none : s.ledger.pending slot = false := by simp [State.ledger, EventRecord.pending, closed]
  have due : update s.ledger.pending slot event.pending = s.ledger.pending :=
    update_eq_self_iff.2 (idle.trans none.symm)
  have ledger :=
    congrArg (fun l : Ledger => { l with created := s.created + 1 }) (@ledger_write s slot event)
  rw [due] at ledger
  exact (congrArg Ledger.Consistent ledger).mpr (good.add closed callable serial)

end

theorem notifies_ne_zero {type : BitVec 32} (notifies : type &&& evtNotifySignal ≠ 0) :
    type &&& (evtNotifyWait ||| evtNotifySignal) ≠ 0 := by
  intro neither
  apply notifies
  have part : evtNotifySignal = (evtNotifyWait ||| evtNotifySignal) &&& evtNotifySignal := by decide
  rw [part, ← BitVec.and_assoc, neither]
  decide

theorem create_consistent (good : s.ledger.Consistent) (type : BitVec 32) (notifyTpl : Nat)
    (hasFunction : Bool) (context : BitVec 64) (group : Option GroupGuid) (createEventEx : Bool) :
    (s.create type notifyTpl hasFunction context group createEventEx).ledger.Consistent := by
  rw [State.create]
  split
  · split
    · exact good
    · rename_i slot found
      have closed : (s.records slot).isOpen = false := by simpa using List.find?_some found
      apply add_consistent good closed
      · split_ifs <;> simp [EventRecord.pending, EventRecord.closed]
      · split_ifs with notifies
        · exact fun _ => rfl
        · intro signal
          exact absurd (notifies_ne_zero (by simpa [EventRecord.notifiesSignal] using signal))
            (by simpa using notifies)
      · split_ifs <;> rfl
  · exact good

/-- The dispatcher takes a notification of an open event. -/
theorem deliver_consistent (good : s.ledger.Consistent) (used : (s.queue i).inUse) :
    (s.deliver i).ledger.Consistent := by
  obtain ⟨due, tpl, function, serial⟩ := good.entry i used
  obtain ⟨⟨opened, notifies⟩, signaled⟩ : ((s.records (s.queue i).event).isOpen ∧
      (s.records (s.queue i).event).notifiesSignal) ∧ (s.records (s.queue i).event).signaled := by
    simpa [State.ledger, EventRecord.pending] using due
  have called : s.calls i := by
    simpa [State.calls, State.ledger, EventRecord.identity, opened] using function.symm
  rw [State.deliver, if_pos called, if_pos notifies]
  have ledger := congrArg (fun l : Ledger => { l with
    queue := update s.queue i { s.queue i with inUse := false } })
    (ledger_write_signaled opened notifies false)
  refine (congrArg Ledger.Consistent ledger).mpr (good.release ?_ ?_ ?_)
  · intro j still
    have other : j ≠ i := by
      rintro rfl
      simp at still
    simp only [update_of_ne other] at still ⊢
    -- Another entry is for another event.
    have elsewhere : (s.queue j).event ≠ (s.queue i).event :=
      fun same => other (good.unique j i still used same)
    exact ⟨rfl, by simpa [State.ledger, elsewhere] using (good.entry j still).1⟩
  · intro other
    by_cases same : other = (s.queue i).event <;> simp [same]
  · intro j used due
    have other : j ≠ i := by
      rintro rfl
      simp [State.ledger] at due
    exact update_of_ne other _ _

/-- Every call keeps queue and events consistent. -/
theorem call_consistent (good : s.ledger.Consistent) (service : Call) :
    (s.call service).ledger.Consistent := by
  cases service with
  | create type notifyTpl hasFunction context group createEventEx => exact create_consistent good ..
  | close slot => exact close_consistent good
  | signal slot =>
    rw [State.call, State.signal]
    split
    · split
      · exact signalRecord_consistent good
      · exact signalAll_consistent good ..
    · exact good
  | signalGroup group => exact signalAll_consistent good ..
  | signalGroupAndType group type => exact signalAll_consistent good ..
  | signalRegistered slots => exact signalAll_consistent good ..
  | setTimer slot type now triggerTime =>
    rw [State.call]
    split_ifs with timed
    · rw [ledger_write_same]
      · exact good
      · rfl
      · rfl
    · exact good
  | cancelAllTimers =>
    have events : EventRecord.identity ∘ (s.call .cancelAllTimers).records =
        EventRecord.identity ∘ s.records := by
      funext slot
      simp only [State.call, comp_apply]
      split_ifs <;> rfl
    have due : EventRecord.pending ∘ (s.call .cancelAllTimers).records =
        EventRecord.pending ∘ s.records := by
      funext slot
      simp only [State.call, comp_apply]
      split_ifs <;> rfl
    rw [State.ledger, events, due]
    exact good
  | timerExpired slot ticksPer100ns now => exact timerExpired_consistent good ..
  | raiseTpl tpl => exact good
  | restoreTpl tpl => exact good

/-- What the dispatcher may take. -/
def State.Eligible (s : State) (i : Fin 32) : Prop :=
  (s.queue i).inUse ∧ s.currentTpl < (s.queue i).notifyTpl

/-- A notification that the dispatcher prefers to another, or the other itself. -/
def State.AtLeast (s : State) (i j : Fin 32) : Prop :=
  (s.queue j).notifyTpl < (s.queue i).notifyTpl ∨
    (s.queue j).notifyTpl = (s.queue i).notifyTpl ∧
      (s.queue i).order % 2 ^ 64 ≤ (s.queue j).order % 2 ^ 64

/-- The best of the places looked at so far. -/
def State.Best (s : State) (seen : List (Fin 32)) (best : Option (Fin 32)) : Prop :=
  (∀ i ∈ best, s.Eligible i) ∧ ∀ j ∈ seen, s.Eligible j → ∃ i ∈ best, s.AtLeast i j

theorem better_best {seen : List (Fin 32)} {best : Option (Fin 32)}
    (found : s.Best seen best) (i : Fin 32) : s.Best (seen ++ [i]) (s.better best i) := by
  simp only [State.better.eq_def, State.Best, State.Eligible, State.AtLeast] at found ⊢
  grind

theorem selected_best : s.Best (List.finRange 32) s.selected := by
  have loop : ∀ places seen : List (Fin 32), ∀ best, s.Best seen best →
      s.Best (seen ++ places) (places.foldl s.better best) := by
    intro places
    induction places with
    | nil => exact fun seen best found => by simpa using found
    | cons i rest ih =>
      intro seen best found
      simpa using ih (seen ++ [i]) _ (better_best found i)
  exact loop (List.finRange 32) [] none (by simp [State.Best])

theorem step_consistent (good : s.ledger.Consistent) (move : Move) :
    (s.step move).ledger.Consistent := by
  simp only [State.step.eq_def]
  split
  · split
    · exact good
    · rename_i i chosen
      exact deliver_consistent good (selected_best.1 i chosen).1
  · exact good
  · exact good
  · exact call_consistent good _
  · exact good

theorem run_consistent (moves : List Move) (good : s.ledger.Consistent) :
    (s.run moves).ledger.Consistent := by
  induction moves generalizing s with
  | nil => exact good
  | cons move rest ih => exact ih (step_consistent good move)

/-- No notification is lost or duplicated: in every run a signaled event that notifies has exactly
one notification in the queue, which always has room; the dispatcher takes one of the highest task
priority, above the current one, and of those the first, as long as the 64-bit counter has not
wrapped; and it then calls the function of an event that was not closed since it was signaled. -/
theorem notifications_exact (moves : List Move) :
    let s := State.initial.run moves
    (∀ slot, (s.records slot).isOpen = true → (s.records slot).notifiesSignal = true →
        ((s.records slot).signaled = true ↔ ∃! i,
          (s.queue i).inUse = true ∧ (s.queue i).event = slot)) ∧
      (∃ i, (s.queue i).inUse = false) ∧
      ∀ i, s.selected = some i →
        s.currentTpl < (s.queue i).notifyTpl ∧
        (∀ j ≠ i, (s.queue j).inUse = true → (s.queue j).notifyTpl < (s.queue i).notifyTpl ∨
          (s.queue j).notifyTpl = (s.queue i).notifyTpl ∧
            (s.notifyOrder ≤ 2 ^ 64 → (s.queue i).order < (s.queue j).order)) ∧
        s.calls i = true ∧ (s.records (s.queue i).event).serial = (s.queue i).serial ∧
        (s.queue i).serial ∉ s.closed := by
  intro s
  have good : s.ledger.Consistent := run_consistent moves consistent_initial
  refine ⟨fun slot opened notifies => ?_, good.exists_free, fun i chosen => ?_⟩
  · have due : s.ledger.pending slot = (s.records slot).signaled := by
      simp [State.ledger, EventRecord.pending, opened, notifies]
    constructor
    · intro signaled
      obtain ⟨i, used, its⟩ := good.queued slot (due.trans signaled)
      exact ⟨i, ⟨used, its⟩, fun j other => good.unique j i other.1 used (other.2.trans its.symm)⟩
    · rintro ⟨i, ⟨used, rfl⟩, _⟩
      exact due.symm.trans (good.entry i used).1
  · obtain ⟨used, above⟩ := selected_best.1 i chosen
    obtain ⟨due, tpl, function, serial⟩ := good.entry i used
    have opened := good.due _ due
    refine ⟨above, fun j other waiting => ?_, ?_, serial.symm, serial ▸ (good.living _ opened).2⟩
    · by_cases low : (s.queue j).notifyTpl ≤ s.currentTpl
      · exact .inl (Nat.lt_of_le_of_lt low above)
      · -- Positions of the queue are distinct.
        have apart : (s.queue j).order ≠ (s.queue i).order :=
          fun same => other (good.ordered j i waiting used same)
        obtain ⟨best, taken, preferred⟩ :=
          selected_best.2 j (List.mem_finRange j) ⟨waiting, Nat.lt_of_not_le low⟩
        obtain rfl : i = best := Option.some.inj (chosen.symm.trans taken)
        refine preferred.imp_right fun ⟨level, earlier⟩ => ⟨level, fun few => ?_⟩
        have first : (s.queue i).order < 2 ^ 64 := (good.numbered i used).trans_le few
        have second : (s.queue j).order < 2 ^ 64 := (good.numbered j waiting).trans_le few
        rw [Nat.mod_eq_of_lt first, Nat.mod_eq_of_lt second] at earlier
        omega
    · have opened : (s.records (s.queue i).event).isOpen = true := opened
      simpa [State.calls, State.ledger, EventRecord.identity, opened] using function.symm

/-- Of two events that were signaled while the task priority was high, the first one is notified
when it falls. -/
theorem notifications_exact_first :
    let s := State.initial.run [.call (.create evtNotifySignal 8 true 0 none false),
      .call (.create evtNotifySignal 8 true 0 none false), .call (.raiseTpl 16),
        .call (.signal 3), .dispatcher,
      .call (.signal 2), .dispatcher, .call (.restoreTpl 4)]
    s.selected = some 0 ∧ (s.queue 0).event = 3 ∧ (s.queue 1).inUse = true ∧
      (s.queue 0).order < (s.queue 1).order := by
  intro s
  have chosen : s.selected = some 0 := by decide +kernel
  have used : (s.queue 1).inUse = true := by decide +kernel
  have alike : ¬(s.queue 1).notifyTpl < (s.queue 0).notifyTpl := by decide +kernel
  have first := ((notifications_exact _).2.2 0 chosen).2.1 1 (by decide) used
  exact ⟨chosen, by decide +kernel, used, (first.resolve_left alike).2 (by decide +kernel)⟩

end Steps

end Ia64.Efi.Events
