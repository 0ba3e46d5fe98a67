import Ia64.Efi.Ebc

/-! The byte-code interpreter keeps to its stack, and calls return to the instruction after them. -/

namespace Ia64.Efi.Ebc

open ByteOrder CheckedState CheckedState.Action Safe

variable {ε α : Type}

theorem safe_refuse (failure : Failure) :
    Safe (refuse failure : Action (Machine ε) α) := fun _ => nofun

theorem safe_attempt (result : Except Failure α) :
    Safe (attempt result : Action (Machine ε) α) := by
  cases result with
  | ok value => exact pure value
  | error failure => exact safe_refuse failure

theorem safe_perform (instruction : Instruction ε) : Safe (perform instruction) :=
  bind get fun _ => bind (safe_attempt _) fun _ => modify _

theorem perform_ok {instruction : Instruction ε} {m after : Machine ε}
    (succeeds : instruction m = .ok after) : perform instruction m = .done () after := by
  unfold perform
  rw [get_bind, succeeds]
  rfl

theorem Machine.pushed_pointer (m : Machine ε) (value : Word) (bytes : Nat) :
    (m.pushed value bytes).registers 0 = m.registers 0 - BitVec.ofNat 64 bytes :=
  setRegister_self ..

namespace Stack

variable (stack : Stack)

theorem high_toNat : stack.high.toNat = stack.low.toNat + 0x10000 := by
  rw [high, BitVec.toNat_add]
  exact Nat.mod_eq_of_lt stack.fits

theorem range_eq_inside (address bytes : Word) :
    stack.range address bytes = stack.inside address bytes.toNat := by
  rw [Bool.eq_iff_iff]
  simp only [range, inside, Bool.and_eq_true, decide_eq_true_eq, BitVec.le_def]
  -- The difference is taken only of an address that is not above the stack.
  by_cases below : address.toNat ≤ stack.high.toNat
  · rw [BitVec.toNat_sub_of_le (BitVec.le_def.mpr below)]
    omega
  · omega

variable {bytes : Nat}

theorem room_iff (small : bytes ≤ 8) (sp : Word) :
    ¬(sp < stack.low + BitVec.ofNat 64 bytes ∨ stack.high < sp) ↔
      stack.low.toNat + bytes ≤ sp.toNat ∧ sp.toNat ≤ stack.high.toNat := by
  have fits := stack.fits
  have bottom : (stack.low + BitVec.ofNat 64 bytes).toNat = stack.low.toNat + bytes := by
    rw [BitVec.toNat_add, BitVec.toNat_ofNat]
    omega
  rw [not_or, BitVec.not_lt, BitVec.not_lt, BitVec.le_def, BitVec.le_def, bottom]

/-- A push is refused, or goes below the stack pointer. -/
theorem push_cases (value : Word) (small : bytes ≤ 8) (m : Machine ε) :
    (∃ after, stack.push value bytes m = .rejected after) ∨
      stack.low.toNat + bytes ≤ (m.registers 0).toNat ∧ (m.registers 0).toNat ≤ stack.high.toNat ∧
        stack.push value bytes m = .done () (m.pushed value bytes) := by
  unfold push
  rw [get_bind]
  by_cases full : m.registers 0 < stack.low + BitVec.ofNat 64 bytes ∨ stack.high < m.registers 0
  · rw [if_pos full]
    exact .inl ⟨_, rfl⟩
  · obtain ⟨bottom, top⟩ := (stack.room_iff small _).mp full
    have place : (m.registers 0 - BitVec.ofNat 64 bytes).toNat = (m.registers 0).toNat - bytes := by
      rw [BitVec.toNat_sub_of_le (BitVec.le_def.mpr (by rw [BitVec.toNat_ofNat]; omega)),
        BitVec.toNat_ofNat]
      omega
    have within : stack.inside (m.registers 0 - BitVec.ofNat 64 bytes) bytes := by
      simp only [inside, Bool.and_eq_true, decide_eq_true_eq, place]
      omega
    rw [if_neg full]
    exact .inr ⟨bottom, top, check_bind within _ _⟩

theorem pushed_of_done {value : Word} (small : bytes ≤ 8) {m after : Machine ε}
    (done : stack.push value bytes m = .done () after) :
    after = m.pushed value bytes ∧ stack.low.toNat + bytes ≤ (m.registers 0).toNat ∧
      (m.registers 0).toNat ≤ stack.high.toNat := by
  obtain ⟨_, refused⟩ | ⟨bottom, top, pushes⟩ := stack.push_cases value small m
  · cases refused.symm.trans done
  · cases pushes.symm.trans done
    exact ⟨rfl, bottom, top⟩

theorem pop_eq (small : bytes ≤ 8) (m : Machine ε) :
    stack.pop bytes m = if stack.inside (m.registers 0) bytes then
      .done (m.read (m.registers 0) bytes) (m.setRegister 0 (m.registers 0 + BitVec.ofNat 64 bytes))
      else refuse stackFailure m := by
  have size : (BitVec.ofNat 64 bytes).toNat = bytes := by
    rw [BitVec.toNat_ofNat]
    omega
  unfold pop
  rw [get_bind, range_eq_inside, size]
  cases within : stack.inside (m.registers 0) bytes with
  | false => rfl
  | true => rfl

theorem safe_push (value : Word) (small : bytes ≤ 8) :
    Safe (stack.push value bytes : Action (Machine ε) Unit) := by
  intro m
  obtain ⟨after, refused⟩ | ⟨-, -, done⟩ := stack.push_cases value small m
  · rw [refused]
    nofun
  · rw [done]
    nofun

theorem safe_pop (small : bytes ≤ 8) : Safe (stack.pop bytes : Action (Machine ε) Word) := by
  intro m
  rw [stack.pop_eq small]
  split
  · nofun
  · exact safe_refuse _ m

theorem safe_stackInstruction (pops natural : Bool) :
    Safe (stack.stackInstruction pops natural : Action (Machine ε) Unit) := by
  refine bind get fun m => ?_
  have small : (if natural || test m.opcode modifierLow then 8 else 4) ≤ 8 := by split <;> decide
  dsimp only
  split
  · exact safe_refuse _
  · refine bind (safe_attempt _) fun offset => ?_
    split
    · exact bind (stack.safe_push _ small) fun _ => modify _
    · exact bind (stack.safe_pop small) fun _ => bind (modify _) fun _ => modify _

theorem safe_enterByteCode (target returnAddress : Word) :
    Safe (stack.enterByteCode target returnAddress : Action (Machine ε) Unit) := by
  refine bind get fun m => ?_
  dsimp only
  split
  · exact safe_refuse _
  · exact bind (stack.safe_push _ (by decide)) fun _ =>
      bind (stack.safe_push _ (by decide)) fun _ =>
      modify _

end Stack

section Interpreter

variable (native : Native ε) (stack : Stack) (finalFrame : Word)

theorem safe_callInstruction : Safe (callInstruction native stack) := by
  refine bind get fun m => ?_
  dsimp only
  split
  · exact safe_refuse _
  · refine bind (safe_attempt _) fun target => ?_
    cases m.entry target with
    | some byteCode => exact stack.safe_enterByteCode _ _
    | none =>
      dsimp only
      split
      · exact safe_refuse _
      · rename_i passes
        refine bind (check ?_) fun _ => modify _
        -- The limit may come from overwritten stack memory, so only the test just made bounds it.
        simp only [not_or, BitVec.not_lt, Bool.not_eq_true, Bool.not_eq_false',
          stack.range_eq_inside] at passes
        obtain ⟨-, -, above, within⟩ := passes
        rw [BitVec.toNat_sub_of_le above] at within
        rw [within, Bool.and_true]
        exact decide_eq_true above

theorem safe_returnInstruction :
    Safe (returnInstruction stack finalFrame : Action (Machine ε) Unit) := by
  refine bind get fun m => ?_
  split
  · exact safe_refuse _
  · split
    · exact modify _
    · exact bind (stack.safe_pop (by decide)) fun _ => bind (stack.safe_pop (by decide)) fun _ =>
        bind (modify _) fun _ => safe_perform _

theorem safe_step : Safe (step native stack finalFrame) := by
  refine bind get fun m => ?_
  split
  · exact safe_refuse _
  · split
    · exact safe_refuse _
    · -- Three kinds of instruction use the stack; the others are performed on the record alone.
      cases m.operation with
      | none => exact safe_refuse _
      | some operation =>
        cases operation with
        | call => exact safe_callInstruction native stack
        | ret => exact safe_returnInstruction stack finalFrame
        | stack pops natural => exact stack.safe_stackInstruction pops natural
        | _ => exact safe_perform _

theorem safe_turn (value : Unit) : Safe (turn native stack finalFrame value) := by
  refine bind get fun m => ?_
  split
  · exact pure _
  · refine bind (safe_step native stack finalFrame) fun _ => bind (modify _) fun _ =>
      bind get fun m => ?_
    split
    · exact safe_refuse _
    · exact pure _

theorem safe_pushArguments (arguments : List Word) :
    Safe (pushArguments stack arguments : Action (Machine ε) Unit) := by
  induction arguments with
  | nil => exact pure ()
  | cons argument rest ih => exact bind ih fun _ => stack.safe_push _ (by decide)

theorem safe_prepareMachine (arguments : List Word) :
    Safe (prepareMachine stack arguments : Action (Machine ε) Word) :=
  bind (safe_pushArguments stack arguments) fun _ => bind (stack.safe_push _ (by decide)) fun _ =>
    bind (stack.safe_push _ (by decide)) fun _ => bind (modify _) fun _ =>
      bind get fun _ => pure _

/-- A call whose target is byte code. -/
def CallsByteCode (m : Machine ε) : Prop :=
  m.operation = some .call ∧ ∃ target byteCode,
    branchTarget m = .ok target ∧ m.entry target = some byteCode

/-- A machine that is about to perform a return. -/
def AtReturn (m : Machine ε) : Prop :=
  m.complete = false ∧ m.pc ≠ 0 ∧ m.pc &&& 1 = 0 ∧ m.opcode = 4 ∧ m.operands = 0

/-- What a call to byte code leaves: its limit and its return address below the stack pointer it
found. -/
structure Called (m called : Machine ε) : Prop where
  room : stack.low.toNat + 16 ≤ (m.registers 0).toNat ∧ (m.registers 0).toNat ≤ stack.high.toNat
  even : m.pc &&& 1 = 0
  pointer : called.registers 0 = m.registers 0 - 16
  returnAddress : called.read (called.registers 0) 8 = m.pc + BitVec.ofNat 64 m.branchLength
  savedLimit : called.read (called.registers 0 + 8) 8 = m.argumentLimit

variable {native stack finalFrame} {m called : Machine ε}

/-- Two words pushed one after another are both there. -/
theorem read_pushed (m : Machine ε) (first second : Word) :
    let pushed := (m.pushed first 8).pushed second 8
    pushed.registers 0 = m.registers 0 - 16 ∧ pushed.read (pushed.registers 0) 8 = second ∧
      pushed.read (pushed.registers 0 + 8) 8 = first := by
  intro pushed
  have pointer : pushed.registers 0 = m.registers 0 - 16 := by
    rw [Machine.pushed_pointer, Machine.pushed_pointer]
    bv_omega
  have memory : pushed.world.memory = store false
      (store false m.world.memory (pushed.registers 0 + 8) 8 first)
      (pushed.registers 0) 8 second := by
    rw [show pushed.registers 0 + 8 = m.registers 0 - 8 by rw [pointer]; bv_omega]
    rfl
  refine ⟨pointer, ?_, ?_⟩
  · rw [Machine.read, memory]
    exact load_store false _ _ _ rfl (by decide)
  · rw [Machine.read, memory]
    exact (load_store_after false _ _ _ (by decide)).trans (load_store false _ _ _ rfl (by decide))

theorem stepped_eq (m : Machine ε) : ∃ fault, m.stepped = { m with fault := fault } := by
  unfold Machine.stepped
  split
  · exact ⟨_, rfl⟩
  · exact ⟨m.fault, rfl⟩

/-- A turn goes on while the stack pointer is in range. -/
theorem turn_goes_on : turn native stack finalFrame () m = .done (.inl ()) called ↔
    m.complete = false ∧ ∃ after : Machine ε, step native stack finalFrame m = .done () after ∧
      stack.inside (after.registers 0) 0 ∧ called = after.stepped := by
  unfold turn
  rw [get_bind]
  cases complete : m.complete with
  | true => exact ⟨nofun, nofun⟩
  | false =>
    rw [if_neg Bool.false_ne_true]
    -- What follows the step is decided by the stack pointer that it leaves.
    have rest : ∀ after : Machine ε, (Action.modify Machine.stepped >>= fun _ => get >>= fun m =>
        if !stack.range (m.registers 0) 0 then refuse stackFailure else pure (.inl ())) after =
        if stack.inside (after.registers 0) 0 then .done (.inl () : Unit ⊕ Unit) after.stepped
        else refuse stackFailure after.stepped := by
      intro after
      obtain ⟨fault, same⟩ := stepped_eq after
      have pointer : after.stepped.registers 0 = after.registers 0 := by rw [same]
      rw [modify_bind, get_bind, stack.range_eq_inside, pointer, show (0 : Word).toNat = 0 from rfl]
      cases stack.inside (after.registers 0) 0 <;> rfl
    constructor
    · intro turns
      obtain ⟨⟨⟩, after, steps, turns⟩ := done_of_bind turns
      rw [rest after] at turns
      cases within : stack.inside (after.registers 0) 0 with
      | false => rw [within] at turns; cases turns
      | true => rw [within] at turns; cases turns; exact ⟨rfl, after, steps, within, rfl⟩
    · rintro ⟨-, after, steps, within, rfl⟩
      rw [bind_of_done steps, rest after, within]
      rfl

/-- Entering byte code saves two words. -/
theorem saved_of_enterByteCode {target returnAddress : Word}
    (enters : stack.enterByteCode target returnAddress m = .done () called) :
    (stack.low.toNat + 16 ≤ (m.registers 0).toNat ∧ (m.registers 0).toNat ≤ stack.high.toNat) ∧
      called.registers 0 = m.registers 0 - 16 ∧ called.read (called.registers 0) 8 = returnAddress ∧
      called.read (called.registers 0 + 8) 8 = m.argumentLimit := by
  unfold Stack.enterByteCode at enters
  rw [get_bind] at enters
  split at enters
  · cases enters
  · obtain ⟨⟨⟩, below, first, enters⟩ := done_of_bind enters
    obtain ⟨⟨⟩, pushed, second, enters⟩ := done_of_bind enters
    cases enters
    obtain ⟨rfl, bottom, top⟩ := stack.pushed_of_done (by decide) first
    obtain ⟨rfl, lower, -⟩ := stack.pushed_of_done (by decide) second
    refine ⟨⟨?_, top⟩, read_pushed m m.argumentLimit returnAddress⟩
    rw [Machine.pushed_pointer] at lower
    bv_omega

/-- A call has saved its two words. -/
theorem called_of_call (calls : CallsByteCode m)
    (turns : turn native stack finalFrame () m = .done (.inl ()) called) :
    Called stack m called := by
  obtain ⟨-, after, steps, -, rfl⟩ := turn_goes_on.mp turns
  obtain ⟨operation, target, byteCode, branch, entry⟩ := calls
  obtain ⟨fault, same⟩ := stepped_eq after
  unfold step at steps
  rw [get_bind, operation] at steps
  by_cases null : m.pc = 0
  · rw [if_pos null] at steps
    cases steps
  · by_cases odd : m.pc &&& 1 ≠ 0
    · rw [if_neg null, if_pos odd] at steps
      cases steps
    · rw [if_neg null, if_neg odd] at steps
      change callInstruction native stack m = _ at steps
      unfold callInstruction at steps
      rw [get_bind] at steps
      cases bad : m.badCall with
      | true => rw [bad] at steps; cases steps
      | false =>
        rw [bad, if_neg Bool.false_ne_true, branch] at steps
        rw [bind_of_done (show attempt (.ok target) m = .done target m from rfl), entry] at steps
        obtain ⟨room, pointer, returnAddress, savedLimit⟩ := saved_of_enterByteCode steps
        rw [same]
        exact ⟨room, not_not.mp odd, pointer, returnAddress, savedLimit⟩

theorem even_iff (address : Word) : address &&& 1 = 0 ↔ address.toNat % 2 = 0 := by
  rw [← BitVec.toNat_inj, BitVec.toNat_and, show (1 : Word).toNat = 1 from rfl, Nat.and_one_is_mod]
  rfl

theorem even_after_branch (even : m.pc &&& 1 = 0) :
    (m.pc + BitVec.ofNat 64 m.branchLength) &&& 1 = 0 := by
  have length : m.branchLength % 2 = 0 ∧ m.branchLength < 16 := by
    unfold Machine.branchLength
    split
    · decide
    · split <;> decide
  rw [even_iff] at even ⊢
  rw [BitVec.toNat_add, BitVec.toNat_ofNat]
  omega

theorem returned_pointer (m : Machine ε) : m.returned.registers 0 = m.registers 0 + 8 + 8 :=
  (m.setRegister 0 (m.registers 0 + 8)).setRegister_self 0 _

/-- A return takes two words off the stack. -/
theorem step_of_return (native : Native ε) (atReturn : AtReturn m)
    (notFinal : m.registers 0 ≠ finalFrame) (first : stack.inside (m.registers 0) 8)
    (second : stack.inside (m.registers 0 + 8) 8) (present : m.read (m.registers 0) 8 ≠ 0)
    (aligned : m.read (m.registers 0) 8 &&& 1 = 0) :
    step native stack finalFrame m = .done () m.returned := by
  obtain ⟨-, notNull, even, opcode, operands⟩ := atReturn
  have operation : m.operation = some .ret := by
    rw [Machine.operation, opcode]
    rfl
  have encoding : (test m.opcode 0xc0 || decide (m.operands ≠ 0)) = false := by
    rw [opcode, operands]
    rfl
  have jumps : ¬(m.read (m.registers 0) 8 = 0 ∨ m.read (m.registers 0) 8 &&& 1 ≠ 0) := by
    rw [not_or, not_not]
    exact ⟨present, aligned⟩
  unfold step
  rw [get_bind, if_neg notNull, if_neg (not_not.mpr even), operation]
  change returnInstruction stack finalFrame m = _
  unfold returnInstruction
  rw [get_bind, encoding, if_neg Bool.false_ne_true, if_neg notFinal]
  rw [bind_of_done ((stack.pop_eq (by decide) m).trans (if_pos first))]
  rw [bind_of_done
    ((stack.pop_eq (by decide) _).trans (if_pos (by rwa [Machine.setRegister_self])))]
  rw [modify_bind, Machine.setRegister_self, perform_ok (if_neg jumps)]
  rfl

/-- A return that finds its two words takes them up. -/
theorem return_of_called {back : Machine ε} (below : m.registers 0 ≤ finalFrame)
    (saved : Called stack m called) (atReturn : AtReturn back)
    (restored : back.registers 0 = called.registers 0)
    (kept : ∀ k < 16, back.world.memory (called.registers 0 + BitVec.ofNat 64 k) =
      called.world.memory (called.registers 0 + BitVec.ofNat 64 k))
    (present : m.pc + BitVec.ofNat 64 m.branchLength ≠ 0) :
    ∃ resumed, turn native stack finalFrame () back = .done (.inl ()) resumed ∧
      resumed.pc = m.pc + BitVec.ofNat 64 m.branchLength ∧ resumed.registers 0 = m.registers 0 ∧
      resumed.argumentLimit = m.argumentLimit := by
  have fits := stack.high_toNat
  have topFits := stack.high.isLt
  obtain ⟨bottom, top⟩ := saved.room
  have pointer : back.registers 0 = m.registers 0 - 16 := restored.trans saved.pointer
  have place : (back.registers 0).toNat = (m.registers 0).toNat - 16 := by
    rw [pointer]
    bv_omega
  have nextPlace : (back.registers 0 + 8).toNat = (m.registers 0).toNat - 8 := by
    rw [pointer]
    bv_omega
  have notFinal : back.registers 0 ≠ finalFrame := by
    rintro rfl
    rw [BitVec.le_def] at below
    omega
  -- The two words are those that the call saved.
  have target : back.read (back.registers 0) 8 = m.pc + BitVec.ofNat 64 m.branchLength := by
    rw [← saved.returnAddress, restored]
    exact load_congr false fun k inside => kept k (by omega)
  have limit : back.read (back.registers 0 + 8) 8 = m.argumentLimit := by
    rw [← saved.savedLimit, restored]
    refine load_congr false fun k inside => ?_
    have next := kept (8 + k) (by omega)
    rwa [BitVec.ofNat_add, ← BitVec.add_assoc] at next
  have first : stack.inside (back.registers 0) 8 := by
    simp only [Stack.inside, Bool.and_eq_true, decide_eq_true_eq, place]
    omega
  have second : stack.inside (back.registers 0 + 8) 8 := by
    simp only [Stack.inside, Bool.and_eq_true, decide_eq_true_eq, nextPlace]
    omega
  have steps := step_of_return native atReturn notFinal first second (by rwa [target])
    (by rw [target]; exact even_after_branch saved.even)
  have popped : back.returned.registers 0 = m.registers 0 := by
    rw [returned_pointer, pointer]
    bv_omega
  have within : stack.inside (back.returned.registers 0) 0 := by
    simp only [Stack.inside, Bool.and_eq_true, decide_eq_true_eq, popped]
    omega
  refine ⟨_, turn_goes_on.mpr ⟨atReturn.1, _, steps, within, rfl⟩, ?_⟩
  obtain ⟨fault, same⟩ := stepped_eq back.returned
  rw [same]
  exact ⟨target, popped, limit⟩

/--
Every access to the stack and every argument range of a native call is inside the stack, in every
execution. A call to byte code from at or below the final frame is resumed after it by a return that
finds the stack pointer and the two saved words as the call left them, given that an instruction can
follow the call: address zero holds none. -/
theorem stack_confined (native : Native ε) (stack : Stack) :
    (∀ image byteCode arguments turns world,
      run native stack image byteCode arguments turns world ≠ .fault) ∧
    (∀ finalFrame turns m, execute native stack finalFrame turns m ≠ .fault) ∧
    ∀ finalFrame (m called back : Machine ε), m.registers 0 ≤ finalFrame → CallsByteCode m →
      turn native stack finalFrame () m = .done (.inl ()) called → AtReturn back →
      back.registers 0 = called.registers 0 →
      (∀ k < 16, back.world.memory (called.registers 0 + BitVec.ofNat 64 k) =
        called.world.memory (called.registers 0 + BitVec.ofNat 64 k)) →
      m.pc + BitVec.ofNat 64 m.branchLength ≠ 0 →
      ∃ resumed, turn native stack finalFrame () back = .done (.inl ()) resumed ∧
        resumed.pc = m.pc + BitVec.ofNat 64 m.branchLength ∧ resumed.registers 0 = m.registers 0 ∧
        resumed.argumentLimit = m.argumentLimit := by
  refine ⟨fun image byteCode arguments turns world => ?_, fun finalFrame turns m => ?_, ?_⟩
  · unfold run
    dsimp only
    split
    · nofun
    · exact bind (safe_prepareMachine stack arguments) (fun finalFrame =>
        iterate (safe_turn native stack finalFrame) turns ()) _
  · exact iterate (safe_turn native stack finalFrame) turns () m
  · intro finalFrame m called back below calls turns atReturn restored kept present
    exact return_of_called below (called_of_call calls turns) atReturn restored kept present

end Interpreter

/-- A machine at a call through its first register, to a procedure that only returns. -/
def callMachine : Machine Unit where
  pc := 0x1000
  registers := fun register => if register.val = 0 then 0x1fff0 else 0x2000
  flags := 0
  argumentLimit := 0x1fff8
  image := 0
  compilerRevision := 0
  fault := .none
  complete := false
  status := .success
  world :=
    { memory := fun address =>
        if address = 0x1000 then 3 else if address = 0x1001 then 1
          else if address = 0x2000 then 4 else 0
      thunks := []
      environment := () }

/-- Native code that does nothing, and no thunks. -/
def quietNative : Native Unit := ⟨fun _ _ _ world => (0, world), fun _ _ _ => .error 0⟩

/-- A stack at 64 KiB. -/
def lowStack : Stack := ⟨0x10000, by decide⟩

/-- The call is entered, and the return takes up what it saved. -/
theorem stack_confined_call : ∃ called resumed,
    turn quietNative lowStack 0x1fff0 () callMachine = .done (.inl ()) called ∧
      turn quietNative lowStack 0x1fff0 () called = .done (.inl ()) resumed ∧
      resumed.pc = 0x1002 ∧ resumed.registers 0 = 0x1fff0 ∧ resumed.argumentLimit = 0x1fff8 := by
  have calls : CallsByteCode callMachine := ⟨rfl, 0x2000, 0x2000, rfl, rfl⟩
  have enters : turn quietNative lowStack 0x1fff0 () callMachine = .done (.inl ()) _ := rfl
  obtain ⟨resumed, returns, results⟩ :=
    (stack_confined quietNative lowStack).2.2 0x1fff0 callMachine _ _
    (by decide) calls enters ⟨rfl, by decide, rfl, rfl, rfl⟩ rfl (fun _ _ => rfl) (by decide)
  exact ⟨_, resumed, enters, returns, results⟩

end Ia64.Efi.Ebc
