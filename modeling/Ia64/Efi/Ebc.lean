import Ia64.Lib.ByteOrder
import Ia64.Lib.CheckedState

/-! The byte-code interpreter of the firmware, with every access to its stack checked against the
stack's range. -/

namespace Ia64.Efi.Ebc

open ByteOrder CheckedState CheckedState.Action

/-- An address or the value of a register. -/
abbrev Word := BitVec 64
/-- A byte of memory. -/
abbrev Byte := BitVec 8

/-- `FW_EBC_FAULT`. -/
inductive Fault where
  | none | divideByZero | breakpoint | invalidOpcode | stack | alignment | encoding | badBreak
  | singleStep
  deriving DecidableEq

/-- The statuses of the interpreter, with those of a thunk that could not be made. -/
inductive Status where
  | success | loadError | unsupported | invalidParameter
  | thunk (status : Word)
  deriving DecidableEq

/-- How an instruction fails: its status and the fault it records, if any. -/
structure Failure where
  fault : Option Fault
  status : Status

/-- The instruction is not encoded as it must be. -/
def encodingFailure : Failure := ⟨some .encoding, .unsupported⟩
/-- An access is outside the stack. -/
def stackFailure : Failure := ⟨some .stack, .loadError⟩
/-- The target of a branch is zero or odd. -/
def alignmentFailure : Failure := ⟨some .alignment, .loadError⟩
/-- The divisor is zero. -/
def divideFailure : Failure := ⟨some .divideByZero, .loadError⟩
/-- The code of a break is not supported. -/
def badBreakFailure : Failure := ⟨some .badBreak, .loadError⟩

/-- `FW_EBC_THUNK`: an entry into byte code for native callers. -/
structure Thunk where
  active : Bool
  descriptor : Word
  byteCode : Word

/-- What byte code shares with native code: memory, the table of thunks and whatever else native
code has. -/
structure World (ε : Type) where
  memory : Word → Byte
  thunks : List Thunk
  environment : ε

/-- What native code does: `fw_ebc_call_native` on a descriptor and an argument range, and
`fw_ebc_make_thunk`. -/
structure Native (ε : Type) where
  callNative : (descriptor base limit : Word) → World ε → Word × World ε
  makeThunk : (image byteCode : Word) → World ε → Except Word (Word × World ε)

/-- The range of the stack, which no instruction changes. -/
structure Stack where
  low : Word
  -- The pool returned the whole allocation of `FW_EBC_STACK_BYTES`.
  fits : low.toNat + 0x10000 < 2 ^ 64

/-- The first address above the stack. -/
def Stack.high (stack : Stack) : Word := stack.low + 0x10000

/-- The rest of `FW_EBC_MACHINE`, with the status of the last step. -/
structure Machine (ε : Type) where
  pc : Word
  registers : Fin 8 → Word
  flags : Word
  argumentLimit : Word
  image : Word
  compilerRevision : BitVec 32
  fault : Fault
  complete : Bool
  status : Status
  world : World ε

variable {ε α : Type}

namespace Machine

variable (m : Machine ε)

/-- `fw_ebc_read`. -/
def read (address : Word) (bytes : Nat) : Word := load 64 false m.world.memory address bytes

/-- `fw_ebc_write`. -/
def write (address value : Word) (bytes : Nat) : Machine ε :=
  { m with world.memory := store false m.world.memory address bytes value }

/-- The first byte of the instruction. -/
def opcode : Byte := m.world.memory m.pc

/-- The second byte of the instruction. -/
def operands : Byte := m.world.memory (m.pc + 1)

/-- Write a register. -/
def setRegister (register : Fin 8) (value : Word) : Machine ε :=
  { m with registers := Function.update m.registers register value }

@[simp] theorem setRegister_self (register : Fin 8) (value : Word) :
    (m.setRegister register value).registers register = value :=
  Function.update_self ..

/-- Go on after an instruction of a number of bytes. -/
def advance (bytes : Nat) : Machine ε := { m with pc := m.pc + BitVec.ofNat 64 bytes }

/-- The machine with a value below its stack pointer. -/
def pushed (value : Word) (bytes : Nat) : Machine ε :=
  let sp := m.registers 0 - BitVec.ofNat 64 bytes
  (m.write sp value bytes).setRegister 0 sp

/-- The machine after a return that has taken its two words off the stack. -/
def returned : Machine ε :=
  { (m.setRegister 0 (m.registers 0 + 8)).setRegister 0 (m.registers 0 + 8 + 8) with
    argumentLimit := m.read (m.registers 0 + 8) 8
    pc := m.read (m.registers 0) 8 }

end Machine

/-- Whether a byte has one of the bits of a mask. -/
def test (byte mask : Byte) : Bool := byte &&& mask != 0

/-- The register that three bits of a byte name. -/
def register (byte : Byte) : Fin 8 := ⟨byte.toNat % 8, Nat.mod_lt _ (by decide)⟩

/-- `FW_EBC_MODIFIER_HIGH`. -/
def modifierHigh : Byte := 0x80

/-- `FW_EBC_MODIFIER_LOW`. -/
def modifierLow : Byte := 0x40

/-- The bits of a number of bytes. -/
def mask (bytes : Nat) : Word := if 8 ≤ bytes then BitVec.allOnes 64 else 1 <<< (bytes * 8) - 1

/-- A value of some bits, extended with its sign. -/
def signExtend (value : Word) (bits : Nat) : Word :=
  if bits = 64 then value
  else
    let sign : Word := 1 <<< (bits - 1)
    (value ^^^ sign) - sign

/-- An offset of constant and natural units; its callers all answer a refusal with the same
failure. -/
def naturalOffset (encoding : Word) (bytes : Nat) : Except Failure Word :=
  let payloadBits := bytes * 8 - 4
  let naturalBits := (encoding >>> payloadBits &&& 7).toNat * bytes
  if (bytes ≠ 2 ∧ bytes ≠ 4 ∧ bytes ≠ 8) ∨ payloadBits < naturalBits then .error encodingFailure
  else
    let lowBits (count : Nat) : Word := if count = 0 then 0 else 1 <<< count - 1
    let naturalUnits := encoding &&& lowBits naturalBits
    let constantUnits := encoding >>> naturalBits &&& lowBits (payloadBits - naturalBits)
    let magnitude := constantUnits + naturalUnits * 8
    .ok (if encoding &&& 1 <<< (bytes * 8 - 1) ≠ 0 then 0 - magnitude else magnitude)

variable (m : Machine ε)

/-- The displacement that an instruction holds at a cursor, if any: natural units or a signed
number. -/
def displacement (present natural : Bool) (cursor width : Nat) : Except Failure Word :=
  if !present then .ok 0
  else
    let encoded := m.read (m.pc + BitVec.ofNat 64 cursor) width
    if natural then naturalOffset encoded width else .ok (signExtend encoded (width * 8))

/-- The value of an operand: a sum, or what memory holds there. -/
def operand (register : Fin 8) (indirect : Bool) (displacement : Word) (bytes : Nat) : Word :=
  let location := m.registers register + displacement
  if indirect then m.read location bytes else location

/-- Write a register, or memory where it points. -/
def storeOperand (register : Fin 8) (indirect : Bool) (displacement value : Word) (bytes : Nat) :
    Machine ε :=
  let value := value &&& mask bytes
  if indirect then m.write (m.registers register + displacement) value bytes
    else m.setRegister register value

/-- `fw_ebc_condition`. -/
def conditionHolds (encoding conditionalBit desiredBit : Byte) : Bool :=
  !test encoding conditionalBit || (m.flags &&& 1 != 0) == test encoding desiredBit

/-- Branch to an even address other than zero. -/
def setPc (target : Word) : Except Failure (Machine ε) :=
  if target = 0 ∨ target &&& 1 ≠ 0 then .error alignmentFailure else .ok { m with pc := target }

/-- The comparisons of the byte code. -/
inductive Comparison where
  | eq | sle | sge | ule | uge

/-- Compare two values of a width. -/
def compare (operation : Comparison) (left right : Word) (bytes : Nat) : Bool :=
  let left := left &&& mask bytes
  let right := right &&& mask bytes
  let signedLeft := signExtend left (bytes * 8)
  let signedRight := signExtend right (bytes * 8)
  match operation with
  | .eq => left == right
  | .sle => signedLeft.sle signedRight
  | .sge => signedRight.sle signedLeft
  | .ule => left.ule right
  | .uge => right.ule left

/-- Set or clear the condition flag. -/
def setCondition (value : Bool) : Machine ε :=
  { m with flags := m.flags &&& ~~~1 ||| if value then 1 else 0 }

/-- The operations on two operands. -/
inductive DataOperation where
  | not | negate | add | subtract | multiply | multiplyUnsigned
  | divide | divideUnsigned | remainder | remainderUnsigned
  | and | or | xor | shiftLeft | shiftRight | shiftArithmetic
  | extend (bytes : Nat)

/-- The bytes of the source operand. -/
def DataOperation.sourceWidth (width : Nat) : DataOperation → Nat
  | .extend bytes => bytes
  | _ => width

/-- A signed operation of a width; the quotient of the least number by minus one is the least
number. -/
def signedAt (width : Nat) (narrow : BitVec 32 → BitVec 32 → BitVec 32) (wide : Word → Word → Word)
    (left right : Word) : Word :=
  if width = 4 then (narrow (left.setWidth 32) (right.setWidth 32)).setWidth 64 else wide left right

/-- The result of an operation, of which the operand width keeps the low part. -/
def DataOperation.result (operation : DataOperation) (width : Nat) (left right : Word) :
    Except Failure Word :=
  match operation with
  | .not => .ok (~~~right)
  | .negate => .ok (0 - right)
  | .add => .ok (left + right)
  | .subtract => .ok (left - right)
  | .multiply | .multiplyUnsigned => .ok (left * right)
  | .divide => if right = 0 then .error divideFailure
    else .ok (signedAt width BitVec.sdiv BitVec.sdiv left right)
  | .remainder => if right = 0 then .error divideFailure
    else .ok (signedAt width BitVec.srem BitVec.srem left right)
  | .divideUnsigned => if right = 0 then .error divideFailure else .ok (left / right)
  | .remainderUnsigned => if right = 0 then .error divideFailure else .ok (left % right)
  | .and => .ok (left &&& right)
  | .or => .ok (left ||| right)
  | .xor => .ok (left ^^^ right)
  | .shiftLeft => .ok (if width * 8 ≤ right.toNat then 0 else left <<< right.toNat)
  | .shiftRight => .ok (if width * 8 ≤ right.toNat then 0 else left >>> right.toNat)
  | .shiftArithmetic =>
    -- A shift by the width or more leaves copies of the sign.
    let count := min right.toNat (width * 8 - 1)
    .ok (signedAt width (fun value _ => value.sshiftRight count)
      (fun value _ => value.sshiftRight count) left right)
  | .extend bytes => .ok (signExtend right (bytes * 8))

/-- An instruction that does not use the stack. -/
abbrev Instruction (ε : Type) := Machine ε → Except Failure (Machine ε)

/-- An operation on a register or memory and another operand. -/
def dataInstruction (operation : DataOperation) : Instruction ε := fun m => do
  let opcode := m.opcode
  let operands := m.operands
  let width := if test opcode modifierLow then 8 else 4
  let length := if test opcode modifierHigh then 4 else 2
  let sourceIndirect := test operands 0x80
  let sourceOffset ← displacement m (test opcode modifierHigh) sourceIndirect 2 2
  let sourceWidth := operation.sourceWidth width
  let right :=
    operand m (register (operands >>> 4)) sourceIndirect sourceOffset sourceWidth &&&
      mask sourceWidth
  let left := operand m (register operands) (test operands 0x08) 0 width &&& mask width
  let result ← operation.result width left right
  return (storeOperand m (register operands) (test operands 0x08) 0 result width).advance length

/-- Compare a register with an operand. -/
def compareInstruction (operation : Comparison) : Instruction ε := fun m => do
  let opcode := m.opcode
  let operands := m.operands
  let width := if test opcode modifierLow then 8 else 4
  let length := if test opcode modifierHigh then 4 else 2
  let rightIndirect := test operands 0x80
  if test operands 0x08 then throw encodingFailure
  let offset ← displacement m (test opcode modifierHigh) rightIndirect 2 2
  let right := operand m (register (operands >>> 4)) rightIndirect offset width
  return (setCondition m (compare operation (m.registers (register operands)) right width)).advance
    length

/-- Compare an operand with an immediate. -/
def compareImmediate (operation : Comparison) : Instruction ε := fun m => do
  let opcode := m.opcode
  let operands := m.operands
  let comparisonWidth := if test opcode modifierLow then 8 else 4
  let immediateWidth := if test opcode modifierHigh then 4 else 2
  let indirect := test operands 0x08
  if test operands 0xe0 || (test operands 0x10 && !indirect) then throw encodingFailure
  let offset ← displacement m (test operands 0x10) true 2 2
  let cursor := if test operands 0x10 then 4 else 2
  let immediate :=
    signExtend (m.read (m.pc + BitVec.ofNat 64 cursor) immediateWidth) (immediateWidth * 8)
  let left := operand m (register operands) indirect offset comparisonWidth
  return (setCondition m (compare operation left immediate comparisonWidth)).advance
    (cursor + immediateWidth)

/-- A move between operands with indices of a width; a direct source has a signed number or natural
units as its index. -/
def moveOperands (indexWidth moveWidth : Nat) (signedSource : Bool) : Instruction ε := fun m => do
  let opcode := m.opcode
  let operands := m.operands
  let destinationIndirect := test operands 0x08
  let sourceIndirect := test operands 0x80
  if test opcode modifierHigh && !destinationIndirect then throw encodingFailure
  let destinationOffset ← displacement m (test opcode modifierHigh) true 2 indexWidth
  let cursor := if test opcode modifierHigh then 2 + indexWidth else 2
  let sourceOffset ← displacement m (test opcode modifierLow)
      (sourceIndirect || !signedSource) cursor indexWidth
  let cursor := if test opcode modifierLow then cursor + indexWidth else cursor
  let value := operand m (register (operands >>> 4)) sourceIndirect sourceOffset moveWidth
  return (storeOperand m (register operands) destinationIndirect destinationOffset value
    moveWidth).advance cursor

/-- Move a value of a width. -/
def moveInstruction (indexWidth moveWidth : Nat) : Instruction ε :=
  moveOperands indexWidth moveWidth false

/-- Move a natural value with its sign. -/
def moveSignedNatural (indexWidth : Nat) : Instruction ε := moveOperands indexWidth 8 true

/-- A move of a value that the instruction holds in `1 << (opcode >> 6)` bytes at a cursor. -/
def moveEncoded (reserved : Byte) (moveWidth : Machine ε → Nat)
    (value : Machine ε → (cursor : Word) → (width : Nat) → Except Failure Word) :
    Instruction ε := fun m => do
  let width := 1 <<< (m.opcode >>> 6).toNat
  let operands := m.operands
  let destinationIndirect := test operands 0x08
  if m.opcode >>> 6 = 0 || test operands reserved ||
    (test operands 0x40 && !destinationIndirect) then
    throw encodingFailure
  let destinationOffset ← displacement m (test operands 0x40) true 2 2
  let cursor := if test operands 0x40 then 4 else 2
  let value ← value m (m.pc + BitVec.ofNat 64 cursor) width
  return (storeOperand m (register operands) destinationIndirect destinationOffset value
    (moveWidth m)).advance (cursor + width)

/-- Move an immediate. -/
def moveImmediate : Instruction ε :=
  moveEncoded 0x80 (fun m => 1 <<< (m.operands >>> 4 &&& 3).toNat) fun m cursor width =>
    .ok (signExtend (m.read cursor width) (width * 8))

/-- Move the offset that an index stands for. -/
def moveIndex : Instruction ε :=
  moveEncoded 0xb0 (fun _ => 8) fun m cursor width => naturalOffset (m.read cursor width) width

/-- Move what memory holds at a distance. -/
def moveRelative : Instruction ε :=
  moveEncoded 0xb0 (fun m => 1 <<< (m.opcode >>> 6).toNat) fun m cursor width =>
    let relative := signExtend (m.read cursor width) (width * 8)
    .ok (m.read (cursor + BitVec.ofNat 64 width + relative) width)

/-- The format of a jump or a call. -/
def Machine.format (m : Machine ε) : Nat := (m.opcode >>> 6).toNat

/-- The bytes of a jump or a call. -/
def Machine.branchLength (m : Machine ε) : Nat :=
  if m.format = 0 then 2 else if m.format = 2 then 6 else 10

/-- The target of a jump or a call. -/
def branchTarget (m : Machine ε) : Except Failure Word := do
  let operands := m.operands
  let indirect := test operands 0x08
  let address ←
    if m.format = 3 then pure (m.read (m.pc + 2) 8)
    else do
      let base := if register operands = 0 then 0 else m.registers (register operands)
      let offset ← displacement m (m.format = 2) indirect 2 4
      pure (if indirect then m.read (base + offset) 8 else base + offset)
  return if test operands 0x10 then m.pc + BitVec.ofNat 64 m.branchLength + address else address

/-- A jump to an operand, absolute or relative. -/
def jumpInstruction : Instruction ε := fun m => do
  if test m.operands 0x20 || m.format = 1 then throw encodingFailure
  let target ← branchTarget m
  if conditionHolds m m.operands 0x80 0x40 then setPc m target else return m.advance m.branchLength

/-- A jump by a byte of words. -/
def jump8Instruction : Instruction ε := fun m =>
  let taken := conditionHolds m m.opcode 0x80 0x40
  return { m with pc := m.pc + 2 + if taken then m.operands.signExtend 64 * 2 else 0 }

/-- Move to or from the special registers. -/
def specialInstruction (store : Bool) : Instruction ε := fun m => do
  let operands := m.operands
  if test m.opcode 0xc0 || test operands 0x88 then throw encodingFailure
  if !store then
    if register operands ≠ 0 then throw encodingFailure
    return { m with
      flags :=
        m.flags &&& ~~~(3 : Word) ||| m.registers (register (operands >>> 4)) &&& 3 }.advance 2
  else
    let special := register (operands >>> 4)
    if 1 < special then throw encodingFailure
    return (m.setRegister (register operands) (if special = 0 then m.flags else m.pc)).advance 2

/-- A break, which asks for a service of the interpreter. -/
def breakInstruction (native : Native ε) : Instruction ε := fun m => do
  if test m.opcode 0xc0 then throw encodingFailure
  match m.operands.toNat with
  | 1 => return (m.setRegister 7 0x00010000).advance 2
  | 3 => return { m with fault := .breakpoint }.advance 2
  | 4 => return m.advance 2
  | 5 =>
    let pointer := m.registers 7
    if pointer = 0 then throw badBreakFailure
    let byteCode := pointer + 4 + signExtend (m.read pointer 4) 32
    match native.makeThunk m.image byteCode m.world with
    | .error status => throw ⟨none, .thunk status⟩
    | .ok (thunk, world) => return ({ m with world := world }.write pointer thunk 8).advance 2
  | 6 => return { m with compilerRevision := (m.registers 7).setWidth 32 }.advance 2
  | _ => throw badBreakFailure

/-- Stop with a failure. -/
def refuse (failure : Failure) : Action (Machine ε) α := fun m =>
  .rejected { m with fault := failure.fault.getD m.fault, status := failure.status }

/-- Go on with a result, or stop with its failure. -/
def attempt (result : Except Failure α) : Action (Machine ε) α :=
  match result with
  | .ok value => pure value
  | .error failure => refuse failure

/-- Perform an instruction that does not use the stack. -/
def perform (instruction : Instruction ε) : Action (Machine ε) Unit := do
  let m ← attempt (instruction (← get))
  modify fun _ => m

namespace Stack

variable (stack : Stack)

/-- Whether a range of bytes lies inside the stack. -/
def inside (address : Word) (bytes : Nat) : Bool :=
  stack.low.toNat ≤ address.toNat && address.toNat + bytes ≤ stack.high.toNat

/-- `fw_ebc_stack_range`. -/
def range (address bytes : Word) : Bool :=
  stack.low ≤ address && address ≤ stack.high && bytes ≤ stack.high - address

/-- Push a value on the stack. -/
def push (value : Word) (bytes : Nat) : Action (Machine ε) Unit := do
  let sp := (← get).registers 0
  if sp < stack.low + BitVec.ofNat 64 bytes ∨ stack.high < sp then refuse stackFailure
  else
    let sp := sp - BitVec.ofNat 64 bytes
    check (stack.inside sp bytes)
    modify fun m => (m.write sp value bytes).setRegister 0 sp

/-- Pop a value from the stack. -/
def pop (bytes : Nat) : Action (Machine ε) Word := do
  let m ← get
  let sp := m.registers 0
  if !stack.range sp (BitVec.ofNat 64 bytes) then refuse stackFailure
  else
    check (stack.inside sp bytes)
    modify fun m => m.setRegister 0 (sp + BitVec.ofNat 64 bytes)
    return m.read sp bytes

/-- Push or pop an operand. -/
def stackInstruction (pops natural : Bool) : Action (Machine ε) Unit := do
  let m ← get
  let operands := m.operands
  let width := if natural || test m.opcode modifierLow then 8 else 4
  let length := if test m.opcode modifierHigh then 4 else 2
  let indirect := test operands 0x08
  if test operands 0xf0 || (natural && test m.opcode modifierLow) then refuse encodingFailure
  else
    let offset ← attempt (displacement m (test m.opcode modifierHigh) indirect 2 2)
    if !pops then stack.push (operand m (register operands) indirect offset width) width
    else
      let value ← stack.pop width
      modify fun m =>
        if indirect then storeOperand m (register operands) true offset value width
        else
          let value := if !natural && width = 4 then signExtend value 32 else value
          m.setRegister (register operands) (value + offset)
    modify fun m => m.advance length

/-- Call byte code: save the argument limit and the return address. -/
def enterByteCode (target returnAddress : Word) : Action (Machine ε) Unit := do
  let savedLimit := (← get).argumentLimit
  if target = 0 ∨ target &&& 1 ≠ 0 then refuse alignmentFailure
  else
    stack.push savedLimit 8
    stack.push returnAddress 8
    modify fun m => { m with argumentLimit := m.registers 0, pc := target }

end Stack

/-- The thunk that a descriptor belongs to. -/
def findThunk (thunks : List Thunk) (descriptor : Word) : Option Thunk :=
  thunks.find? fun thunk => thunk.active && thunk.descriptor == descriptor

/-- The byte code that a call to a target enters: the target, or the one of its thunk if the call is
external. -/
def Machine.entry (m : Machine ε) (target : Word) : Option Word :=
  if test m.operands 0x20 then (findThunk m.world.thunks target).map Thunk.byteCode else some target

/-- Whether the encoding of a call is refused. -/
def Machine.badCall (m : Machine ε) : Bool :=
  test m.operands 0xc0 || m.format = 1 || (m.format = 3 && test m.operands 0x10)

section Interpreter

variable (native : Native ε) (stack : Stack)

/-- A call to byte code or native code. -/
def callInstruction : Action (Machine ε) Unit := do
  let m ← get
  if m.badCall then refuse encodingFailure
  else
    let target ← attempt (branchTarget m)
    match m.entry target with
    | some byteCode => stack.enterByteCode byteCode (m.pc + BitVec.ofNat 64 m.branchLength)
    | none =>
      let sp := m.registers 0
      let limit := m.argumentLimit
      if target = 0 ∨ target &&& 7 ≠ 0 ∨ limit < sp ∨ !stack.range sp (limit - sp)
        then refuse stackFailure
      else
        check (sp ≤ limit && stack.inside sp (limit.toNat - sp.toNat))
        let (value, world) := native.callNative target sp limit m.world
        modify fun m => ({ m with world := world }.setRegister 7 value).advance m.branchLength

variable (finalFrame : Word)

/-- Return, from the outermost frame by ending the run. -/
def returnInstruction : Action (Machine ε) Unit := do
  let m ← get
  if test m.opcode 0xc0 || m.operands ≠ 0 then refuse encodingFailure
  else if m.registers 0 = finalFrame then modify fun m => { m with complete := true }
  else
    let target ← stack.pop 8
    let savedLimit ← stack.pop 8
    modify fun m => { m with argumentLimit := savedLimit }
    perform fun m => setPc m target

/-- The instructions by their opcodes. -/
inductive Operation where
  | breakCode | jump | jump8 | call | ret
  | compare (operation : Comparison)
  | data (operation : DataOperation)
  | move (indexWidth moveWidth : Nat)
  | moveSigned (indexWidth : Nat)
  | special (store : Bool)
  | stack (pops natural : Bool)
  | compareImmediate (operation : Comparison)
  | moveImmediate | moveIndex | moveRelative

/-- The operations in the order of their opcodes. -/
def operations : List (Option Operation) :=
  [some .breakCode, some .jump, some .jump8, some .call, some .ret,
    some (.compare .eq), some (.compare .sle), some (.compare .sge), some (.compare .ule),
      some (.compare .uge),
    some (.data .not), some (.data .negate), some (.data .add), some (.data .subtract),
    some (.data .multiply), some (.data .multiplyUnsigned), some (.data .divide),
      some (.data .divideUnsigned),
    some (.data .remainder), some (.data .remainderUnsigned), some (.data .and), some (.data .or),
      some (.data .xor),
    some (.data .shiftLeft), some (.data .shiftRight), some (.data .shiftArithmetic),
    some (.data (.extend 1)), some (.data (.extend 2)), some (.data (.extend 4)),
    -- 0x1d to 0x24: the moves with indices of two and of four bytes.
    some (.move 2 1), some (.move 2 2), some (.move 2 4), some (.move 2 8),
    some (.move 4 1), some (.move 4 2), some (.move 4 4), some (.move 4 8),
    some (.moveSigned 2), some (.moveSigned 4), none, some (.move 8 8), some (.special false),
      some (.special true),
    some (.stack false false), some (.stack true false),
    some (.compareImmediate .eq), some (.compareImmediate .sle), some (.compareImmediate .sge),
    some (.compareImmediate .ule), some (.compareImmediate .uge),
    -- 0x32 and 0x33 move naturals, 0x35 and 0x36 push and pop them.
    some (.move 2 8), some (.move 4 8), none, some (.stack false true), some (.stack true true),
    some .moveImmediate, some .moveIndex, some .moveRelative]

/-- What the opcode of the instruction stands for. -/
def Machine.operation (m : Machine ε) : Option Operation :=
  (operations[(m.opcode &&& 0x3f).toNat]?).join

/-- Execute one instruction. -/
def step : Action (Machine ε) Unit := do
  let m ← get
  if m.pc = 0 then refuse ⟨none, .invalidParameter⟩
  else if m.pc &&& 1 ≠ 0 then refuse alignmentFailure
  else
    match m.operation with
    | some .breakCode => perform (breakInstruction native)
    | some .jump => perform jumpInstruction
    | some .jump8 => perform jump8Instruction
    | some .call => callInstruction native stack
    | some .ret => returnInstruction stack finalFrame
    | some (.compare operation) => perform (compareInstruction operation)
    | some (.data operation) => perform (dataInstruction operation)
    | some (.move indexWidth moveWidth) => perform (moveInstruction indexWidth moveWidth)
    | some (.moveSigned indexWidth) => perform (moveSignedNatural indexWidth)
    | some (.special store) => perform (specialInstruction store)
    | some (.stack pops natural) => stack.stackInstruction pops natural
    | some (.compareImmediate operation) => perform (compareImmediate operation)
    | some .moveImmediate => perform moveImmediate
    | some .moveIndex => perform moveIndex
    | some .moveRelative => perform moveRelative
    | none => refuse ⟨some .invalidOpcode, .unsupported⟩

/-- The record of a machine that has performed a step: a single step leaves its fault. -/
def Machine.stepped (m : Machine ε) : Machine ε :=
  if m.flags &&& 2 ≠ 0 then { m with fault := .singleStep } else m

/-- One turn of the loop of `fw_ebc_execute`. -/
def turn (_ : Unit) : Action (Machine ε) (Unit ⊕ Unit) := do
  if (← get).complete then return .inr ()
  else
    step native stack finalFrame
    modify Machine.stepped
    if !stack.range ((← get).registers 0) 0 then refuse stackFailure
    else return .inl ()

/-- `fw_ebc_execute`, cut off after a number of turns. -/
def execute (turns : Nat) : Action (Machine ε) Unit :=
  iterate (turn native stack finalFrame) turns ()

/-- Push the arguments, the last one first. -/
def pushArguments : List Word → Action (Machine ε) Unit
  | [] => pure ()
  | argument :: rest => do
    pushArguments rest
    stack.push argument 8

/-- The part of `fw_ebc_prepare_machine` after the record is cleared; returns the final frame. -/
def prepareMachine (arguments : List Word) : Action (Machine ε) Word := do
  pushArguments stack arguments
  stack.push 0 8
  stack.push 0 8
  modify fun m => { m with argumentLimit := m.registers 0 }
  return (← get).registers 0

/-- `fw_ebc_run` on a stack that the pool has returned, cut off after a number of turns. -/
def run (image byteCode : Word) (arguments : List Word) (turns : Nat) (world : World ε) :
    Result (Machine ε) Unit :=
  let cleared : Machine ε :=
    { pc := byteCode, registers := Function.update (fun _ =>
      0) 0 stack.high, flags := 0, argumentLimit := 0,
      image := image, compilerRevision := 0, fault := .none, complete := false, status :=
        .success, world := world }
  if byteCode = 0 ∨ 16 < arguments.length then .rejected { cleared with
    status := .invalidParameter }
  else (prepareMachine stack arguments >>= fun finalFrame =>
    execute native stack finalFrame turns) cleared

end Interpreter

end Ia64.Efi.Ebc
