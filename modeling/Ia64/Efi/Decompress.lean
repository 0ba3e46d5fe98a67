import Ia64.Lib.CheckedState
import Mathlib.Algebra.Group.Nat.Defs

/-! The decompression protocol: canonical codes, the encoding of their lengths, blocks, literals and
matches. -/

namespace Ia64.Efi.Decompress

open CheckedState CheckedState.Action Function

/-- A byte. -/
abbrev Byte := BitVec 8

/-- How many symbols stand for literals and match lengths. -/
def literalCount : Nat := 510

/-- How many symbols encode lengths. -/
def auxiliaryCount : Nat := 19

/-- How many symbols stand for positions. -/
def positionCount : Nat := 14

/-- The longest codeword. -/
def maxCodeBits : Nat := 16

/-- The bits of the number of literal lengths. -/
def literalCountBits : Nat := 9

/-- The bits of the number of auxiliary lengths. -/
def auxiliaryCountBits : Nat := 5

/-- The bits of the number of position lengths. -/
def positionCountBits : Nat := 4

/-- What a symbol for a match exceeds its length by. -/
def matchBias : Nat := 253

/-- The size of the workspace in bytes. -/
def workspaceSize : Nat := 4040

/-- A code: for each length the number of codewords, the first one and where its symbol is in the
ordered table. -/
structure Codebook where
  count : Nat → Nat
  firstCode : Nat → Nat
  firstSymbol : Nat → Nat
  ordered : Nat → Nat
  soleSymbol : Nat
  isSingleton : Bool

/-- The codebook of zeros. -/
def Codebook.zero : Codebook := ⟨fun _ => 0, fun _ => 0, fun _ => 0, fun _ => 0, 0, false⟩

/-- The three codes of a block. -/
inductive Alphabet where
  | auxiliary
  | literal
  | position
deriving DecidableEq, Repr

/-- The workspace; a byte of the output is missing until it is written. -/
structure Workspace where
  payload : Nat → Byte
  payloadSize : Nat
  bitCursor : Nat
  output : Nat → Option Byte
  outputSize : Nat
  outputCursor : Nat
  blockSymbols : Nat
  invalid : Bool
  lengths : Nat → Nat
  book : Alphabet → Codebook

/-- Give up on the input. -/
def Workspace.markInvalid (work : Workspace) : Workspace := { work with invalid := true }

/-- Refuse the input for good. -/
def refuse {α : Type} : Action Workspace α := do
  modify Workspace.markInvalid
  reject

/-- A bit of the payload; the first bit of a byte is its highest. -/
def Workspace.bit (work : Workspace) (index : Nat) : Bool :=
  (work.payload (index / 8)).getLsbD (7 - index % 8)

/-- The bits of a field, one after the other. -/
def takeLoop : Nat → Nat → Action Workspace Nat
  | 0, result => pure result
  | width + 1, result => do
    let work ← get
    let bit := work.bitCursor
    modify fun work => { work with bitCursor := (bit + 1) % 2 ^ 32 }
    check (bit / 8 < work.payloadSize)
    takeLoop width ((2 * result + (work.bit bit).toNat) % 2 ^ 32)

/-- Read a field of the payload. -/
def takeBits (width : Nat) : Action Workspace Nat := do
  let work ← get
  if 32 < width ∨ work.payloadSize * 8 < work.bitCursor ∨
    work.payloadSize * 8 - work.bitCursor < width then refuse
  else takeLoop width 0

section Codebooks

variable (lengths : Nat → Nat)

/-- Count the codewords of each length. -/
def countLengths : Nat → Nat → Action Codebook Unit
  | 0, _ => pure ()
  | more + 1, symbol => do
    check (symbol < literalCount)
    if maxCodeBits < lengths symbol then reject
    else
      modify fun book =>
        { book with
          count := update book.count (lengths symbol) ((book.count (lengths symbol) + 1) % 2 ^ 16) }
      countLengths more (symbol + 1)

/-- Put the symbols of a length into the ordered table. -/
def placeSymbols (width : Nat) : Nat → Nat → Nat → Action Codebook Nat
  | 0, _, orderedCount => pure orderedCount
  | more + 1, symbol, orderedCount => do
    check (symbol < literalCount)
    if lengths symbol = width then
      check (orderedCount < literalCount)
      modify fun book => { book with ordered := update book.ordered orderedCount (symbol % 2 ^ 16) }
      placeSymbols width more (symbol + 1) (orderedCount + 1)
    else placeSymbols width more (symbol + 1) orderedCount

/-- Number the codewords, the shorter ones first. -/
def assignCodes (symbolCount : Nat) : Nat → Nat → Nat → Nat → Action Codebook Nat
  | 0, _, nextCode, _ => pure nextCode
  | more + 1, width, nextCode, orderedCount => do
    let book ← get
    let nextCode := (nextCode + book.count (width - 1)) * 2 % 2 ^ 32
    -- The codewords of this length must fit beside the shorter ones.
    if 2 ^ width < (nextCode + book.count width) % 2 ^ 32 then reject
    else
      modify fun book =>
        { book with
          firstCode := update book.firstCode width nextCode
          firstSymbol := update book.firstSymbol width (orderedCount % 2 ^ 16) }
      let orderedCount ← placeSymbols lengths width symbolCount 0 orderedCount
      assignCodes symbolCount more (width + 1) nextCode orderedCount

/-- Make the canonical code of the given lengths. -/
def makeCodebook (symbolCount : Nat) : Action Codebook Unit := do
  if symbolCount = 0 ∨ literalCount < symbolCount then reject
  else
    modify fun _ => .zero
    countLengths lengths symbolCount 0
    let book ← get
    if book.count 0 = symbolCount then reject
    else
      modify fun book => { book with count := update book.count 0 0 }
      let nextCode ← assignCodes lengths symbolCount maxCodeBits 1 0 0
      let book ← get
      if (nextCode + book.count maxCodeBits) % 2 ^ 32 = 2 ^ maxCodeBits then pure () else reject

end Codebooks

/-- The code of a single symbol, whose codeword is empty. -/
def Codebook.singleton (symbol : Nat) : Codebook :=
  { Codebook.zero with soleSymbol := symbol, isSingleton := true }

/-- Read a codeword bit by bit. -/
def symbolLoop (book : Codebook) : Nat → Nat → Nat → Action Workspace Nat
  | 0, _, _ => refuse
  | more + 1, width, code => do
    let bit ← takeBits 1
    let code := (2 * code + bit) % 2 ^ 32
    if code < book.firstCode width then symbolLoop book more (width + 1) code
    else
      let offset := code - book.firstCode width
      if offset < book.count width then
        check (book.firstSymbol width + offset < literalCount)
        pure (book.ordered (book.firstSymbol width + offset))
      else symbolLoop book more (width + 1) code

/-- Read a symbol. -/
def readSymbol (alphabet : Alphabet) : Action Workspace Nat := do
  let work ← get
  let book := work.book alphabet
  if book.isSingleton then pure book.soleSymbol else symbolLoop book maxCodeBits 1 0

/-- Put a code in place. -/
def Workspace.setBook (alphabet : Alphabet) (book : Codebook) (work : Workspace) : Workspace :=
  { work with book := update work.book alphabet book }

/-- Make the code of the lengths in the workspace. -/
def makeBook (alphabet : Alphabet) (symbolCount : Nat) : Action Workspace Unit := do
  let work ← get
  zoom (·.book alphabet) (Workspace.setBook alphabet) (makeCodebook work.lengths symbolCount)

/-- Clear the lengths of an alphabet. -/
def Workspace.clearLengths (count : Nat) (work : Workspace) : Workspace :=
  { work with lengths := fun symbol => if symbol < count then 0 else work.lengths symbol }

/-- Store the length of a codeword. -/
def storeLength (cursor length : Nat) : Action Workspace Unit := do
  check (cursor < literalCount)
  modify fun work => { work with lengths := update work.lengths cursor (length % 2 ^ 8) }

/-- A code of a single symbol, read where a count of zero stands. -/
def readSingleton (alphabet : Alphabet) (alphabetSize countWidth : Nat) :
    Action Workspace Unit := do
  let repeatedSymbol ← (takeBits countWidth).orElse Workspace.markInvalid
  if alphabetSize ≤ repeatedSymbol then refuse
  else modify (Workspace.setBook alphabet (.singleton repeatedSymbol))

/-- A length from seven on is followed by a bit for each step beyond seven and a zero. -/
def extendLength (length : Nat) : Action Workspace (Nat ⊕ Nat) := do
  let continuation ← takeBits 1
  if continuation ≠ 0 then
    if maxCodeBits < length + 1 then refuse else pure (.inl (length + 1))
  else pure (.inr length)

/-- Read the length of a codeword. -/
def readLength : Action Workspace Nat := do
  let length ← takeBits 3
  if length = 7 then iterate extendLength (maxCodeBits + 1) length else pure length

/-- One length, and after some of them a number of zeros. -/
def basicLength (encodedCount : Nat) (zeroInsert : Option Nat) (cursor : Nat) :
    Action Workspace (Nat ⊕ Unit) := do
  if cursor < encodedCount then
    let length ← readLength
    storeLength cursor length
    let cursor := cursor + 1
    if zeroInsert = some cursor then
      let zeroCount ← (takeBits 2).orElse Workspace.markInvalid
      if encodedCount - cursor < zeroCount then refuse else pure (.inl (cursor + zeroCount))
    else pure (.inl cursor)
  else pure (.inr ())

/-- Read a code whose lengths are written one by one. -/
def readBasicLengths (alphabet : Alphabet) (alphabetSize countWidth : Nat)
    (zeroInsert : Option Nat) : Action Workspace Unit := do
  if literalCount < alphabetSize then reject
  else
    let encodedCount ← takeBits countWidth
    modify (Workspace.clearLengths alphabetSize)
    if encodedCount = 0 then readSingleton alphabet alphabetSize countWidth
    else if alphabetSize < encodedCount then refuse
    else
      iterate (basicLength encodedCount zeroInsert) (encodedCount + 1) 0
      makeBook alphabet alphabetSize

/-- The number of zeros that one of the first three auxiliary symbols stands for. -/
def readRun (token : Nat) : Action Workspace Nat := do
  if token = 0 then pure 1
  else if token = 1 then
    let run ← takeBits 4
    pure (run + 3)
  else
    let run ← takeBits literalCountBits
    pure (run + 20)

/-- One length of the literal code, or a run of zeros. -/
def literalLength (encodedCount : Nat) (cursor : Nat) : Action Workspace (Nat ⊕ Unit) := do
  if cursor < encodedCount then
    let token ← (readSymbol .auxiliary).orElse Workspace.markInvalid
    if auxiliaryCount ≤ token then refuse
    else if 3 ≤ token then
      storeLength cursor (token - 2)
      pure (.inl (cursor + 1))
    else
      let run ← readRun token
      if encodedCount - cursor < run then refuse else pure (.inl (cursor + run))
  else pure (.inr ())

/-- Read the code of literals and match lengths. -/
def readLiteralBook : Action Workspace Unit := do
  let encodedCount ← takeBits literalCountBits
  modify (Workspace.clearLengths literalCount)
  if encodedCount = 0 then readSingleton .literal literalCount literalCountBits
  else if literalCount < encodedCount then refuse
  else
    iterate (literalLength encodedCount) (encodedCount + 1) 0
    makeBook .literal literalCount

/-- Read what precedes the symbols of a block. -/
def startBlock : Action Workspace Unit := do
  let symbols ← (takeBits 16).orElse Workspace.markInvalid
  if symbols = 0 then refuse
  else
    readBasicLengths .auxiliary auxiliaryCount auxiliaryCountBits (some 3)
    readLiteralBook
    readBasicLengths .position positionCount positionCountBits none
    modify fun work => { work with blockSymbols := symbols % 2 ^ 16 }

/-- Read a distance: a symbol for its size, and its lower bits. -/
def readDistance : Action Workspace Nat := do
  let position ← (readSymbol .position).orElse Workspace.markInvalid
  if positionCount ≤ position then refuse
  else if position ≤ 1 then pure position
  else
    let suffix ← takeBits (position - 1)
    pure (2 ^ (position - 1) + suffix)

/-- Write the next byte of the output. -/
def emit (byte : Byte) : Action Workspace Unit := do
  let work ← get
  check (work.outputCursor < work.outputSize)
  modify fun work =>
    { work with
      output := update work.output work.outputCursor (some byte)
      outputCursor := work.outputCursor + 1 }

/-- Repeat bytes of the output; only bytes that have been written are there. -/
def copyMatch : Nat → Nat → Action Workspace Unit
  | 0, _ => pure ()
  | length + 1, source => do
    let work ← get
    match work.output source with
    | none => check false
    | some byte =>
      emit byte
      copyMatch length (source + 1)

/-- Start a block if no symbol is left of the last. -/
def ensureBlock : Action Workspace Unit := do
  let work ← get
  if work.blockSymbols = 0 then startBlock else pure ()

/-- A symbol is a byte, or the length of a match. -/
def expandSymbol (token : Nat) : Action Workspace Unit := do
  if token < 256 then emit (BitVec.ofNat 8 token)
  else
    let length := token - matchBias
    let distance ← readDistance.orElse Workspace.markInvalid
    let work ← get
    if work.outputCursor ≤ distance ∨ work.outputSize - work.outputCursor < length then refuse
    else copyMatch length (work.outputCursor - distance - 1)

/-- Decode one symbol. -/
def expandToken (_ : Unit) : Action Workspace (Unit ⊕ Unit) := do
  let work ← get
  if work.outputCursor < work.outputSize then
    ensureBlock
    let token ← readSymbol .literal
    modify fun work => { work with blockSymbols := (work.blockSymbols + (2 ^ 16 - 1)) % 2 ^ 16 }
    expandSymbol token
    pure (.inl ())
  else pure (.inr ())

/-- Decode symbols until the output is complete; every symbol adds at least a byte. -/
def expand : Action Workspace Unit := do
  let work ← get
  iterate expandToken (work.outputSize + 1) ()
  let work ← get
  if work.invalid then reject else pure ()

/-- The arguments of a call; a buffer is given by its bytes and its size, and may be missing. -/
structure Call where
  thisNull : Bool
  source : Option (Nat → Byte)
  sourceSize : BitVec 32
  destinationNull : Bool
  destinationSize : BitVec 32
  scratchNull : Bool
  scratchSize : BitVec 32

/-- A little-endian number. -/
def u32 (bytes : Nat → Byte) (offset : Nat) : Nat :=
  (bytes offset).toNat + 2 ^ 8 * (bytes (offset + 1)).toNat + 2 ^ 16 * (bytes (offset + 2)).toNat +
    2 ^ 24 * (bytes (offset + 3)).toNat

/-- How a call ends: with what it has written, an access outside an array, or not at all. -/
inductive Outcome where
  | success (output : Nat → Option Byte)
  | invalidParameter (output : Nat → Option Byte)
  | fault
  | endless

/-- The workspace at the start. -/
def Workspace.start (payload : Nat → Byte) (payloadSize outputSize : Nat) : Workspace where
  payload := payload
  payloadSize := payloadSize
  bitCursor := 0
  output := fun _ => none
  outputSize := outputSize
  outputCursor := 0
  blockSymbols := 0
  invalid := false
  lengths := fun _ => 0
  book := fun _ => .zero

/-- Decompress a buffer. -/
def decompressData (call : Call) : Outcome :=
  match call.source with
  | none => .invalidParameter fun _ => none
  | some bytes =>
    if call.thisNull ∨ call.scratchNull ∨ call.sourceSize.toNat < 8 ∨
      call.scratchSize.toNat < workspaceSize then
      .invalidParameter fun _ => none
    else
      let payloadSize := u32 bytes 0
      let outputSize := u32 bytes 4
      if call.sourceSize.toNat - 8 < payloadSize ∨ call.destinationSize.toNat < outputSize ∨
          (outputSize ≠ 0 ∧ (call.destinationNull ∨ payloadSize = 0)) then
        .invalidParameter fun _ => none
      else if outputSize = 0 then .success fun _ => none
      else
        match expand (.start (fun index => bytes (8 + index)) payloadSize outputSize) with
        | .done () work => .success work.output
        | .rejected work => .invalidParameter work.output
        | .fault => .fault
        | .exhausted => .endless

end Ia64.Efi.Decompress
