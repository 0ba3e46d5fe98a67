import Ia64.Ras.Hub

/-! The wake-up of processors after a rendezvous, one at a time through a mailbox in memory. -/

namespace Ia64.Ras

open BitSets

/-- Every processor of one mask is in another. -/
def Within (first second : Word) : Prop := ∀ i, first.getLsbD i → second.getLsbD i

/-- The writes that drive a rendezvous. -/
inductive RendezvousWrite where
  | begin
  | arrive
  | release
  | acknowledge
deriving DecidableEq, Repr

/-- The offset of the register that is written. -/
def RendezvousWrite.address : RendezvousWrite → Nat
  | .begin => 0x68
  | .arrive => 0x80
  | .release => 0x88
  | .acknowledge => 0xb8

/-- That register. -/
def RendezvousWrite.register : RendezvousWrite → Register
  | .begin => .rendezvousBegin
  | .arrive => .rendezvousArrived
  | .release => .rendezvousRelease
  | .acknowledge => .wakeupAck

/-- A write to one of those registers, and the processors that are present at the time. -/
structure Request where
  kind : RendezvousWrite
  value : Word
  present : Word

/-- A write that ends a rendezvous. -/
def Request.Releases (request : Request) : Prop := request.kind = .release ∧ request.value = 1

/-- What happens at the mailbox. -/
inductive WakeEvent where
  | stored (cpu : Nat)
  | acknowledged (cpu : Nat)
deriving DecidableEq, Repr

/-- The mailbox in memory. -/
def Hub.mailbox (hub : Hub) : Word := hub.wakeupValue &&& ~~~(0x8000000000000000 : Word)

/-- A processor's number that is stored to the mailbox. -/
def Signal.wakeEvent (mailbox : Word) : Signal → Option WakeEvent
  | .store address (cpu + 1) => if address = mailbox then some (.stored cpu) else none
  | _ => none

section Runs

variable (lid : Nat → Word)

/-- One write, with a store to memory that works. -/
def Hub.request (hub : Hub) (request : Request) : Hub × List Signal :=
  hub.mmioWrite request.present lid true request.kind.address request.value 8

/-- Whether a write acknowledges the wake-up that is under way. -/
def Hub.accepts (hub : Hub) (request : Request) : Prop :=
  request.kind = .acknowledge ∧ hub.wakeupPending &&& request.value &&& bit hub.wakeupCurrent ≠ 0

instance (hub : Hub) (request : Request) : Decidable (hub.accepts request) :=
  inferInstanceAs (Decidable (_ ∧ _))

section

variable (hub : Hub)

/-- What one write causes at the mailbox: an acknowledgement comes before the store that it leads
to. -/
def Hub.wakeEvents (request : Request) : List WakeEvent :=
  (if hub.accepts request then [.acknowledged hub.wakeupCurrent] else []) ++
    (hub.request lid request).2.filterMap (Signal.wakeEvent hub.mailbox)

/-- The device after some writes. -/
def Hub.runRequests (requests : List Request) : Hub :=
  requests.foldl (fun hub request => (hub.request lid request).1) hub

/-- What some writes cause at the mailbox. -/
def Hub.history (hub : Hub) : List Request → List WakeEvent
  | [] => []
  | request :: requests =>
    hub.wakeEvents lid request ++ (hub.request lid request).1.history requests

/-- The processor whose number was stored last. -/
def lastStored (events : List WakeEvent) : Option Nat :=
  (events.filterMap fun | .stored cpu => some cpu | .acknowledged _ => none).getLast?

/-- Every processor of a rendezvous that was released is still to be woken, or has been woken and
has acknowledged. -/
def Hub.NoneAsleep (requests : List Request) : Prop :=
  ∀ earlier release later, earlier ++ release :: later <+: requests → release.Releases →
    ∀ cpu, (hub.runRequests lid earlier).rendezvousRequired.getLsbD cpu →
      (hub.runRequests lid (earlier ++ release :: later)).wakeupPending.getLsbD cpu ∨
        [.stored cpu, .acknowledged cpu].Sublist
          ((hub.runRequests lid earlier).history lid (release :: later))

/-- While processors are to be woken, the current one is among them and its number was stored
last. -/
def Hub.CurrentStored (requests : List Request) : Prop :=
  ∀ past, past <+: requests → (hub.runRequests lid past).wakeupPending ≠ 0 →
    (hub.runRequests lid past).wakeupPending.getLsbD (hub.runRequests lid past).wakeupCurrent ∧
      lastStored (hub.history lid past) = some (hub.runRequests lid past).wakeupCurrent

/-- No release comes while a processor that does not take part is still to be woken. -/
def Hub.ReleasesInTurn (requests : List Request) : Prop :=
  ∀ earlier release later, requests = earlier ++ release :: later → release.Releases →
    Within (hub.runRequests lid earlier).wakeupPending
      (hub.runRequests lid earlier).rendezvousRequired

/-- The store for the next processor of a set. -/
def wakeOf (pending : Word) : List WakeEvent :=
  if pending = 0 then [] else [.stored (lowest pending)]

theorem runRequests_append (first second : List Request) :
    hub.runRequests lid (first ++ second) = (hub.runRequests lid first).runRequests lid second := by
  -- A run is a fold.
  exact List.foldl_append ..

theorem history_append (first second : List Request) :
    hub.history lid (first ++ second) = hub.history lid first ++
      (hub.runRequests lid first).history lid second := by
  -- The events come in the order of the writes.
  induction first generalizing hub with
  | nil => rfl
  | cons request requests ih =>
    simp only [List.cons_append, Hub.history, ih, List.append_assoc]
    rfl

theorem history_singleton (request : Request) :
    hub.history lid [request] = hub.wakeEvents lid request := by
  -- Nothing follows.
  simp [Hub.history]

theorem request_eq (request : Request) :
    hub.request lid request = hub.writeRegister request.present lid true request.value
      request.kind.register := by
  -- The offsets are those of the register table.
  obtain ⟨kind, value, present⟩ := request
  cases kind <;>
    simp [Hub.request, Hub.mmioWrite, RendezvousWrite.address, RendezvousWrite.register, registerAt]

end

variable {hub : Hub} {pending : Word} {cpu : Nat} {release : Request}

/-- A rendezvous leaves the wake-ups alone. -/
theorem beginRendezvous_quiet (hub : Hub) (present initiator mailbox : Word) :
    let (after, signals) := hub.beginRendezvous present initiator
    after.wakeupMechanism = hub.wakeupMechanism ∧ after.wakeupPending = hub.wakeupPending ∧
      after.wakeupCurrent = hub.wakeupCurrent ∧ ∀ signal ∈ signals,
        signal.wakeEvent mailbox = none := by
  -- The signals are interrupts or INITs.
  have interrupts : ∀ mask vector, ∀ signal ∈ signalMask present mask vector,
      signal.wakeEvent mailbox = none := by
    intro mask vector signal member
    unfold signalMask at member
    split_ifs at member
    · exact nomatch member
    · obtain ⟨cpu, -, rfl⟩ := List.mem_map.mp member
      rfl
  have inits : ∀ mask, ∀ signal ∈ signalInitMask present mask, signal.wakeEvent mailbox = none := by
    intro mask signal member
    obtain ⟨cpu, -, rfl⟩ := List.mem_map.mp member
    rfl
  simp only [Hub.beginRendezvous]
  split_ifs
  · exact ⟨rfl, rfl, rfl, fun signal none => nomatch none⟩
  · exact ⟨rfl, rfl, rfl, fun signal none => nomatch none⟩
  · exact ⟨rfl, rfl, rfl, interrupts _ _⟩
  · exact ⟨rfl, rfl, rfl, inits _⟩

/-- What one write can do to the wake-ups. -/
inductive Hub.Wakes (hub : Hub) (request : Request) : Hub → List WakeEvent → Prop
  | idle {after : Hub} (pending : after.wakeupPending = hub.wakeupPending)
      (current : after.wakeupCurrent = hub.wakeupCurrent)
        (quiet : ¬request.Releases) : Hub.Wakes hub request after []
  | released {after : Hub} (pending : after.wakeupPending = hub.rendezvousRequired)
      (current : after.wakeupPending ≠ 0 → after.wakeupCurrent = lowest after.wakeupPending)
      (releases : request.Releases) : Hub.Wakes hub request after (wakeOf after.wakeupPending)
  | acknowledged {after : Hub} (waiting : hub.wakeupPending.getLsbD hub.wakeupCurrent)
      (pending : after.wakeupPending = hub.wakeupPending &&& ~~~bit hub.wakeupCurrent)
      (current : after.wakeupPending ≠ 0 → after.wakeupCurrent = lowest after.wakeupPending)
      (quiet : ¬request.Releases) :
      Hub.Wakes hub request after (.acknowledged hub.wakeupCurrent :: wakeOf after.wakeupPending)

section Outcomes

variable {hub before after : Hub} {request : Request}

/-- A write that stores nothing and neither releases nor acknowledges. -/
theorem wakes_idle {signals : List Signal} (here : hub.request lid request = (after, signals))
    (memory : after.wakeupMechanism = 2) (pending : after.wakeupPending = hub.wakeupPending)
    (current : after.wakeupCurrent = hub.wakeupCurrent) (quiet : ¬request.Releases)
    (rejected : ¬hub.accepts request)
    (silent : ∀ signal ∈ signals, signal.wakeEvent hub.mailbox = none) :
    (hub.request lid request).1.wakeupMechanism = 2 ∧
      hub.Wakes request (hub.request lid request).1 (hub.wakeEvents lid request) := by
  rw [Hub.wakeEvents, here, if_neg rejected, List.nil_append, List.filterMap_eq_nil_iff.mpr silent]
  exact ⟨memory, .idle pending current quiet⟩

/-- A write that goes on to the next processor of a set. -/
theorem request_starts (here : hub.request lid request = before.startMemoryWakeup true)
    (memory : before.wakeupMechanism = 2) (mailbox : before.mailbox = hub.mailbox) :
    (hub.request lid request).1.wakeupMechanism = 2 ∧
      (hub.request lid request).1.wakeupPending = before.wakeupPending ∧
      (before.wakeupPending ≠ 0 →
        (hub.request lid request).1.wakeupCurrent = lowest before.wakeupPending) ∧
      (hub.request lid request).2.filterMap (Signal.wakeEvent hub.mailbox) =
        wakeOf before.wakeupPending := by
  -- Only an empty set stores nothing.
  rw [here, ← mailbox]
  by_cases none : before.wakeupPending = 0
  · rw [Hub.startMemoryWakeup, if_pos (Or.inr none), wakeOf, if_pos none]
    exact ⟨memory, rfl, fun some => absurd none some, rfl⟩
  · rw [Hub.startMemoryWakeup, if_neg (not_or.mpr ⟨not_not.mpr memory, none⟩), wakeOf, if_neg none]
    refine ⟨memory, rfl, fun _ => rfl, ?_⟩
    exact List.filterMap_cons_some (if_pos rfl)

/-- An acknowledgement that counts comes while its processor is to be woken. -/
theorem waiting_of_accepted {value : Word}
    (accepted : hub.wakeupPending &&& value &&& bit hub.wakeupCurrent ≠ 0) :
    hub.wakeupPending.getLsbD hub.wakeupCurrent := by
  -- A bit that survives the masks is that of the current processor.
  by_contra clear
  refine accepted (BitVec.eq_of_getLsbD_eq fun i inside => ?_)
  rw [BitVec.getLsbD_and, BitVec.getLsbD_and, getLsbD_bit _ inside]
  by_cases here : i = hub.wakeupCurrent
  · rw [here, Bool.not_eq_true _ |>.mp clear]
    exact BitVec.getLsbD_zero.symm
  · rw [decide_eq_false here, Bool.and_false]
    exact BitVec.getLsbD_zero.symm

end Outcomes

/-- Each write does one of those things. -/
theorem request_wakes (memory : hub.wakeupMechanism = 2) (request : Request) :
    (hub.request lid request).1.wakeupMechanism = 2 ∧
      hub.Wakes request (hub.request lid request).1 (hub.wakeEvents lid request) := by
  have equation := request_eq lid hub request
  obtain ⟨kind, value, present⟩ := request
  cases kind with
  | begin =>
    obtain ⟨mechanism, pending, current, silent⟩ :=
      beginRendezvous_quiet hub present value hub.mailbox
    exact wakes_idle lid equation (mechanism.trans memory) pending current
      (fun releases => nomatch releases.1) (fun accepts => nomatch accepts.1) silent
  | arrive =>
    simp only [Hub.writeRegister, RendezvousWrite.register] at equation
    refine wakes_idle lid equation ?_ ?_ ?_ (fun releases => nomatch releases.1)
      (fun accepts => nomatch accepts.1) fun signal none => nomatch none
    all_goals split_ifs
    all_goals first | exact memory | rfl
  | release =>
    by_cases ends : value = 1
    · -- The participants become the processors to be woken.
      subst ends
      have other : ¬(hub.wakeupMechanism = 1 ∧ vectorValid hub.wakeupValue) := by
        rw [memory]
        exact fun one => absurd one.1 (by decide)
      change _ = Hub.releaseRendezvous hub present true at equation
      rw [Hub.releaseRendezvous, if_neg other, if_pos memory] at equation
      obtain ⟨mechanism, pending, current, events⟩ := request_starts lid equation memory rfl
      rw [Hub.wakeEvents, if_neg (fun accepts => nomatch accepts.1), events, ← pending]
      rw [← pending] at current
      exact ⟨mechanism, .released pending current ⟨rfl, rfl⟩⟩
    · exact wakes_idle lid (equation.trans (if_neg ends)) memory rfl rfl
        (fun releases => ends releases.2) (fun accepts => nomatch accepts.1) fun _ none =>
          nomatch none
  | acknowledge =>
    have quiet : ¬Request.Releases ⟨.acknowledge, value, present⟩ :=
      fun releases => nomatch releases.1
    by_cases accepted : hub.wakeupPending &&& value &&& bit hub.wakeupCurrent ≠ 0
    · -- The current processor is taken from those to be woken.
      obtain ⟨mechanism, pending, current, events⟩ :=
        request_starts lid (equation.trans (if_pos accepted)) memory rfl
      rw [Hub.wakeEvents, if_pos ⟨rfl, accepted⟩, events, ← pending]
      rw [← pending] at current
      exact ⟨mechanism, .acknowledged (waiting_of_accepted accepted) pending current quiet⟩
    · exact wakes_idle lid (equation.trans (if_neg accepted)) memory rfl rfl quiet
        (fun accepts => accepted accepts.2) fun _ none => nomatch none

theorem lastStored_append_wakeOf (events : List WakeEvent) (some : pending ≠ 0) :
    lastStored (events ++ wakeOf pending) = Option.some (lowest pending) := by
  -- The store is the last event.
  rw [wakeOf, if_neg some, lastStored, List.filterMap_append]
  exact List.getLast?_concat

theorem mem_of_lastStored {events : List WakeEvent} (last : lastStored events = some cpu) :
    .stored cpu ∈ events := by
  -- The last element of the stores is one of them.
  obtain ⟨event, member, stored⟩ := List.mem_filterMap.mp (List.mem_of_getLast? last)
  cases event with
  | stored other =>
    obtain rfl := Option.some.inj stored
    exact member
  | acknowledged other => exact nomatch stored

theorem acknowledged_notMem_wakeOf (cpu : Nat) (pending : Word) :
    .acknowledged cpu ∉ wakeOf pending := by
  unfold wakeOf
  split_ifs
  · exact List.not_mem_nil
  · simp

theorem getLsbD_without (pending : Word) (current cpu : Nat) :
    (pending &&& ~~~bit current).getLsbD cpu = (pending.getLsbD cpu && decide (cpu ≠ current)) := by
  -- Beyond the word both sides are clear.
  by_cases inside : cpu < 64
  · rw [BitVec.getLsbD_and, BitVec.getLsbD_not, getLsbD_bit current inside,
      decide_eq_true inside, Bool.true_and, decide_not]
  · simp [BitVec.getLsbD_of_ge pending cpu (by omega)]

/-- The current processor is to be woken, and the given events end with its store. -/
def Hub.Awaits (hub : Hub) (events : List WakeEvent) : Prop :=
  hub.wakeupPending ≠ 0 →
    hub.wakeupPending.getLsbD hub.wakeupCurrent ∧ lastStored events = some hub.wakeupCurrent

section Steps

variable {hub after : Hub} {request : Request} {events past : List WakeEvent}

theorem awaits_wakeOf
    (current : after.wakeupPending ≠ 0 → after.wakeupCurrent = lowest after.wakeupPending)
    (past : List WakeEvent) : after.Awaits (past ++ wakeOf after.wakeupPending) := by
  -- The lowest processor is stored and becomes the current one.
  intro some
  rw [current some]
  exact ⟨(lowest_spec some).2.1, lastStored_append_wakeOf past some⟩

theorem awaits_step (wakes : hub.Wakes request after events) (awaits : hub.Awaits past) :
    after.Awaits (past ++ events) := by
  cases wakes with
  | idle pending current =>
    -- Nothing has changed.
    rw [List.append_nil, Hub.Awaits, pending, current]
    exact awaits
  | released pending current => exact awaits_wakeOf current past
  | acknowledged waiting pending current =>
    rw [List.append_cons]
    exact awaits_wakeOf current _

theorem pending_step (wakes : hub.Wakes request after events) (awaits : hub.Awaits past) {cpu : Nat}
    (keeps : request.Releases → Within hub.wakeupPending hub.rendezvousRequired)
    (waiting : hub.wakeupPending.getLsbD cpu) :
    after.wakeupPending.getLsbD cpu ∨
      [.stored cpu, .acknowledged cpu].Sublist (past ++ events) := by
  cases wakes with
  | idle pending =>
    left
    rw [pending]
    exact waiting
  | released pending current releases =>
    left
    rw [pending]
    exact keeps releases cpu waiting
  | acknowledged here pending =>
    by_cases same : cpu = hub.wakeupCurrent
    · -- Its store came last, so it is among the events before.
      right
      have some : hub.wakeupPending ≠ 0 := by
        rintro none
        rw [none] at waiting
        exact absurd waiting (by simp)
      have stored := mem_of_lastStored (awaits some).2
      rw [← same] at stored ⊢
      have first : [WakeEvent.stored cpu].Sublist past := List.singleton_sublist.mpr stored
      exact first.append (List.singleton_sublist.mpr (List.mem_cons_self ..))
    · left
      rw [pending, getLsbD_without, waiting, decide_eq_true same]
      rfl

end Steps

section Memory

variable (memory : hub.wakeupMechanism = 2)

include memory

/-- No write of a run selects the mechanism. -/
theorem runRequests_mechanism (requests : List Request) :
    (hub.runRequests lid requests).wakeupMechanism = 2 := by
  induction requests generalizing hub with
  | nil => exact memory
  | cons request requests ih => exact ih (request_wakes lid memory request).1

/-- Only the last write adds to the history. -/
theorem wakes_concat (requests : List Request) (request : Request) :
    ∃ events, (hub.runRequests lid requests).Wakes request
      (hub.runRequests lid (requests ++ [request])) events ∧
      hub.history lid (requests ++ [request]) = hub.history lid requests ++ events := by
  refine ⟨_, ?_, by rw [history_append, history_singleton]⟩
  rw [runRequests_append]
  exact (request_wakes lid (runRequests_mechanism lid memory requests) request).2

/-- At every moment of a run the current processor is awaited. -/
theorem awaits_run (settled : hub.wakeupPending = 0)
    (requests : List Request) :
    (hub.runRequests lid requests).Awaits (hub.history lid requests) := by
  -- The induction is on the last write.
  induction requests using List.reverseRecOn with
  | nil => exact fun some => absurd settled some
  | append_singleton requests request ih =>
    obtain ⟨events, wakes, history⟩ := wakes_concat lid memory requests request
    rw [history]
    exact awaits_step wakes ih

/-- After a release its participants are to be woken. -/
theorem release_awaits (releases : release.Releases) :
    (hub.runRequests lid [release]).wakeupPending = hub.rendezvousRequired ∧
      (hub.runRequests lid [release]).Awaits (hub.history lid [release]) := by
  have wakes := (request_wakes lid memory release).2
  rw [history_singleton]
  show (hub.request lid release).1.wakeupPending = _ ∧ (hub.request lid release).1.Awaits _
  generalize hub.wakeEvents lid release = events at wakes
  cases wakes with
  | idle pending current quiet => exact absurd releases quiet
  | released pending current => exact ⟨pending, awaits_wakeOf current []⟩
  | acknowledged waiting pending current quiet => exact absurd releases quiet

/-- Every participant is to be woken or has been woken, as long as releases come in turn. -/
theorem woken_run (releases : release.Releases)
    {later : List Request} (keeps : hub.ReleasesInTurn lid (release :: later))
    (required : hub.rendezvousRequired.getLsbD cpu) :
    (hub.runRequests lid (release :: later)).Awaits (hub.history lid (release :: later)) ∧
      ((hub.runRequests lid (release :: later)).wakeupPending.getLsbD cpu ∨
        [.stored cpu, .acknowledged cpu].Sublist (hub.history lid (release :: later))) := by
  -- The induction is on the last write after the release.
  induction later using List.reverseRecOn with
  | nil =>
    obtain ⟨pending, awaits⟩ := release_awaits lid memory releases
    refine ⟨awaits, Or.inl ?_⟩
    rw [pending]
    exact required
  | append_singleton later request ih =>
    have before : hub.ReleasesInTurn lid (release :: later) := by
      intro earlier other rest split
      refine keeps earlier other (rest ++ [request]) ?_
      rw [← List.cons_append, split, List.append_assoc]
      rfl
    obtain ⟨awaits, outcome⟩ := ih before
    obtain ⟨events, wakes, history⟩ := wakes_concat lid memory (release :: later) request
    rw [← List.cons_append, history]
    refine ⟨awaits_step wakes awaits, ?_⟩
    rcases outcome with waiting | woken
    · refine pending_step wakes awaits (fun ends => ?_) waiting
      exact keeps (release :: later) request [] rfl ends
    · exact Or.inr (woken.trans (List.sublist_append_left ..))

/-- A processor that is to be woken took part in a release and has not acknowledged since. -/
theorem released_of_pending (settled : hub.wakeupPending = 0)
    (requests : List Request) (waiting : (hub.runRequests lid requests).wakeupPending.getLsbD cpu) :
    ∃ earlier release later, requests = earlier ++ release :: later ∧ release.Releases ∧
      (hub.runRequests lid earlier).rendezvousRequired.getLsbD cpu ∧
      .acknowledged cpu ∉ (hub.runRequests lid earlier).history lid (release :: later) := by
  -- The induction is on the last write; only a release brings processors in.
  induction requests using List.reverseRecOn with
  | nil =>
    rw [show hub.runRequests lid [] = hub from rfl, settled] at waiting
    exact absurd waiting (by simp)
  | append_singleton requests request ih =>
    have memory' := runRequests_mechanism lid memory requests
    obtain ⟨-, wakes⟩ := request_wakes lid memory' request
    rw [runRequests_append] at waiting
    have extend : (hub.runRequests lid requests).wakeupPending.getLsbD cpu →
        .acknowledged cpu ∉ (hub.runRequests lid requests).wakeEvents lid request →
        ∃ earlier release later, requests ++ [request] = earlier ++ release :: later ∧
          release.Releases ∧ (hub.runRequests lid earlier).rendezvousRequired.getLsbD cpu ∧
          .acknowledged cpu ∉ (hub.runRequests lid earlier).history lid (release :: later) := by
      intro before silent
      obtain ⟨earlier, release, later, split, releases, required, absent⟩ := ih before
      refine ⟨earlier, release, later ++ [request], by rw [split]; simp, releases, required, ?_⟩
      rw [← List.cons_append, history_append, history_singleton, ← runRequests_append, ← split,
        List.mem_append]
      exact fun member => member.elim absent silent
    change (((hub.runRequests lid requests).request lid request).1).wakeupPending.getLsbD cpu =
      true at waiting
    generalize known : (hub.runRequests lid requests).wakeEvents lid request =
      events at wakes extend
    cases wakes with
    | idle pending =>
      rw [pending] at waiting
      exact extend waiting List.not_mem_nil
    | released pending current releases =>
      rw [pending] at waiting
      refine ⟨requests, request, [], rfl, releases, waiting, ?_⟩
      rw [history_singleton, known]
      exact acknowledged_notMem_wakeOf cpu _
    | acknowledged here pending =>
      rw [pending, getLsbD_without, Bool.and_eq_true, decide_eq_true_eq] at waiting
      refine extend waiting.1 ?_
      rw [List.mem_cons, not_or]
      exact ⟨fun same => waiting.2 (WakeEvent.acknowledged.inj same),
        acknowledged_notMem_wakeOf cpu _⟩

end Memory

/-- In a run that starts with no processor to be woken, none is left asleep exactly if no release
comes while a processor that does not take part in it is still to be woken. -/
theorem noneAsleep_iff {hub : Hub} (memory : hub.wakeupMechanism = 2)
    (settled : hub.wakeupPending = 0) (requests : List Request) :
    hub.NoneAsleep lid requests ∧ hub.CurrentStored lid requests ↔
      hub.ReleasesInTurn lid requests := by
  constructor
  · -- A processor that a release drops had been released: its acknowledgement is not to come.
    rintro ⟨woken, -⟩ earlier release later rfl releases cpu waiting
    obtain ⟨first, old, middle, rfl, oldReleases, required, absent⟩ :=
      released_of_pending lid memory settled earlier waiting
    have memory' := runRequests_mechanism lid memory (first ++ old :: middle)
    obtain ⟨pending, -⟩ := release_awaits lid memory' releases
    have outcome := woken first old (middle ++ [release]) ⟨later, by simp⟩ oldReleases cpu required
    rw [← List.cons_append, ← List.append_assoc, runRequests_append, pending] at outcome
    refine outcome.resolve_right fun sublist => ?_
    have member :
        .acknowledged cpu ∈ (hub.runRequests lid first).history lid (old :: middle ++ [release]) :=
      sublist.subset (by simp)
    rw [history_append, history_singleton, ← runRequests_append, List.mem_append] at member
    refine member.elim absent fun inside => ?_
    have wakes := (request_wakes lid memory' release).2
    generalize (hub.runRequests lid (first ++ old :: middle)).wakeEvents lid release =
      events at inside wakes
    cases wakes with
    | idle _ _ quiet => exact quiet releases
    | released => exact acknowledged_notMem_wakeOf cpu _ inside
    | acknowledged _ _ _ quiet => exact quiet releases
  · intro keeps
    refine ⟨?_, fun past _ => awaits_run lid memory settled past⟩
    intro earlier release later inside releases cpu required
    obtain ⟨rest, rfl⟩ := inside
    have memory' := runRequests_mechanism lid memory earlier
    have turn : (hub.runRequests lid earlier).ReleasesInTurn lid (release :: later) := by
      intro before other after split
      rw [← runRequests_append]
      refine keeps (earlier ++ before) other (after ++ rest) ?_
      rw [split]
      simp
    rw [runRequests_append]
    exact (woken_run lid memory' releases turn required).2

end Runs

/-- A device with three processors online that wakes them through memory. -/
def Hub.threeOnline : Hub := { Hub.fresh with wakeupMechanism := 2, cpuOnline := 7 }

/-- The first processor calls the others and releases them. -/
def calledAndReleased : List Request := [⟨.begin, 0, 7⟩, ⟨.release, 1, 7⟩]

/-- Both processors are woken, one after the other, when the release comes in turn. -/
theorem noneAsleep_iff_threeOnline :
    let requests := calledAndReleased ++ [⟨.acknowledge, 2, 7⟩, ⟨.acknowledge, 4, 7⟩]
    Hub.threeOnline.ReleasesInTurn (fun _ => 0) requests ∧
      Hub.threeOnline.NoneAsleep (fun _ => 0) requests ∧
      Hub.threeOnline.CurrentStored (fun _ => 0) requests ∧
      Hub.threeOnline.history (fun _ => 0) requests =
        [.stored 1, .acknowledged 1, .stored 2, .acknowledged 2] := by
  intro requests
  have turn : Hub.threeOnline.ReleasesInTurn (fun _ => 0) requests := by
    rintro (_ | ⟨first, _ | ⟨second, rest⟩⟩) release later split releases
    · obtain rfl : (⟨.begin, 0, 7⟩ : Request) = release := (List.cons.inj split).1
      cases releases.1
    · -- No processor is to be woken before the release.
      obtain rfl : (⟨.begin, 0, 7⟩ : Request) = first := (List.cons.inj split).1
      have none :
          (Hub.threeOnline.runRequests (fun _ => 0) [⟨.begin, 0, 7⟩]).wakeupPending = 0 := by decide
      intro cpu waiting
      rw [none] at waiting
      simp at waiting
    · have tail : [⟨.acknowledge, 2, 7⟩, ⟨.acknowledge, 4, 7⟩] = rest ++ release :: later :=
        (List.cons.inj (List.cons.inj split).2).2
      have last : release ∈ ([⟨.acknowledge, 2, 7⟩, ⟨.acknowledge, 4, 7⟩] : List Request) := by
        rw [tail]
        simp
      simp only [List.mem_cons, List.not_mem_nil, or_false] at last
      rcases last with rfl | rfl <;> cases releases.1
  have woken := (noneAsleep_iff (fun _ => 0) rfl rfl requests).mpr turn
  exact ⟨turn, woken.1, woken.2, by decide⟩

/-- A second release drops the processors that the first one had still to wake. -/
theorem secondRelease_forgets :
    ¬Hub.threeOnline.NoneAsleep (fun _ => 0) (calledAndReleased ++ [⟨.release, 1, 7⟩]) := by
  -- The second processor is neither to be woken nor has it acknowledged.
  intro woken
  have outcome :=
    woken [⟨.begin, 0, 7⟩] ⟨.release, 1, 7⟩ [⟨.release, 1, 7⟩] (List.prefix_refl _) ⟨rfl,
      rfl⟩ 2 (by decide)
  exact absurd outcome (by decide)

end Ia64.Ras
