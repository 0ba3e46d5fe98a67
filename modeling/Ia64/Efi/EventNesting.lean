import Ia64.Efi.Events

/-! Notification functions interrupt only functions of a lower task priority. -/

namespace Ia64.Efi.Events

/-- The events with the task priorities at which the functions on the stack of calls were entered,
innermost first. -/
structure Nesting where
  state : State
  levels : List Nat

/-- The priority at which the innermost function was entered. -/
def Nesting.level (n : Nesting) : Nat := n.levels.headD 0

/-- A move, with the functions that it enters or leaves. -/
def Nesting.step (n : Nesting) (move : Move) : Nesting where
  state := n.state.step move
  levels :=
    match move, n.state.control, n.state.selected with
    | .dispatcher, .dispatching :: _, some i =>
      if n.state.calls i then (n.state.queue i).notifyTpl :: n.levels else n.levels
    | .finish, .running _ :: _, _ => n.levels.tail
    | _, _, _ => n.levels

/-- The rule for callers: no function restores a priority below the one at which it was entered. -/
def Nesting.Keeps (n : Nesting) (move : Move) : Prop :=
  ∀ tpl, move = .call (.restoreTpl tpl) → n.level ≤ tpl

/-- The runs in which all functions keep the rule. -/
inductive Reachable : Nesting → Prop where
  | initial : Reachable ⟨.initial, []⟩
  | step {n : Nesting} {move : Move} (reachable : Reachable n)
    (keeps : n.Keeps move) : Reachable (n.step move)

/-- Each function on the stack was entered above the priority of what it interrupted. -/
inductive Stacked : Nat → List Frame → List Nat → Prop where
  | bottom {tpl : Nat} : Stacked tpl [] []
  | dispatching {tpl : Nat} {control : List Frame} {levels : List Nat}
    (below : Stacked tpl control levels) :
    Stacked tpl (.dispatching :: control) levels
  | running {tpl old level : Nat} {control : List Frame} {levels : List Nat}
    (below : Stacked old control levels)
    (entered : old < level) (above : level ≤ tpl) : Stacked tpl (.running old :: control)
      (level :: levels)

section Stacks

variable {tpl other : Nat} {control : List Frame} {levels : List Nat}

section

variable (stacked : Stacked tpl control levels)

include stacked

/-- The innermost function runs at its priority or above. -/
theorem Stacked.level_le : levels.headD 0 ≤ tpl := by
  induction stacked with
  | bottom => exact Nat.zero_le _
  | dispatching _ ih => exact ih
  | running _ _ above => exact above

/-- Only the innermost function limits the priority. -/
theorem Stacked.change (above : levels.headD 0 ≤ other) :
    Stacked other control levels := by
  induction stacked with
  | bottom => exact .bottom
  | dispatching _ ih => exact .dispatching (ih above)
  | running below entered _ => exact .running below entered above

/-- Each level belongs to one function on the stack. -/
theorem Stacked.count :
    levels.length = control.countP (· != .dispatching) := by
  induction stacked with
  | bottom => rfl
  | dispatching _ ih => simpa using ih
  | running _ _ _ ih => simpa using ih

end

end Stacks

section Frames

variable (s : State) (slot : Slot)

/-- The stack of calls and the current priority. -/
def State.frame (s : State) : List Frame × Nat := (s.control, s.currentTpl)

theorem queueNotify_frame : (s.queueNotify slot).frame = s.frame := by
  unfold State.queueNotify
  dsimp only
  split_ifs
  · rfl
  · rfl
  · split <;> rfl

theorem mark_frame : (s.mark slot).frame = s.frame := by
  unfold State.mark
  dsimp only
  split_ifs
  · exact queueNotify_frame ..
  · rfl

theorem signalRecord_frame : (s.signalRecord slot).frame = s.frame := by
  unfold State.signalRecord
  split_ifs
  · rfl
  · exact mark_frame ..

theorem signalAll_frame (slots : List Slot) (condition : EventRecord → Bool) :
    (s.signalAll slots condition).frame = s.frame := by
  unfold State.signalAll
  induction slots generalizing s with
  | nil => rfl
  | cons slot rest ih =>
    rw [List.foldl_cons, ih]
    split_ifs
    · exact signalRecord_frame ..
    · rfl

/-- Signaling ends with a dispatcher. -/
theorem Stacked.dispatch {s after : State} {levels : List Nat}
    (stacked : Stacked s.currentTpl s.control levels) (same : after.frame = s.frame) :
    Stacked after.dispatch.currentTpl after.dispatch.control levels := by
  obtain ⟨control, tpl⟩ := Prod.mk.inj same
  rw [State.dispatch]
  dsimp only
  rw [control, tpl]
  exact .dispatching stacked

/-- A call keeps the order of the stack. -/
theorem Stacked.call {s : State} {levels : List Nat}
    (stacked : Stacked s.currentTpl s.control levels) (service : Call)
    (keeps : ∀ tpl, service = .restoreTpl tpl → levels.headD 0 ≤ tpl) :
    Stacked (s.call service).currentTpl (s.call service).control levels := by
  cases service with
  | create type notifyTpl hasFunction context group createEventEx =>
    simp only [State.call, State.create]
    split
    · split <;> exact stacked
    · exact stacked
  | close slot =>
    simp only [State.call, State.close]
    split <;> exact stacked
  | signal slot =>
    simp only [State.call, State.signal]
    split
    · split
      · exact stacked.dispatch (signalRecord_frame ..)
      · exact stacked.dispatch (signalAll_frame ..)
    · exact stacked
  | signalGroup group => exact stacked.dispatch (signalAll_frame ..)
  | signalGroupAndType group type => exact stacked.dispatch (signalAll_frame ..)
  | signalRegistered slots => exact stacked.dispatch (signalAll_frame ..)
  | setTimer slot type now triggerTime =>
    simp only [State.call]
    split <;> exact stacked
  | cancelAllTimers => exact stacked
  | timerExpired slot ticksPer100ns now =>
    simp only [State.call, State.timerExpired]
    split
    · split
      · exact stacked
      · have same := mark_frame
          (s.write slot { s.records slot with
            timer := ((s.records slot).timer.consume ticksPer100ns now).2 }) slot
        split
        · exact stacked.dispatch same
        · obtain ⟨control, tpl⟩ := Prod.mk.inj same
          rw [control, tpl]
          exact stacked
    · exact stacked
  | raiseTpl tpl => exact stacked.change (stacked.level_le.trans (Nat.le_max_right ..))
  | restoreTpl tpl => exact .dispatching (stacked.change (keeps tpl rfl))

end Frames

end Ia64.Efi.Events
