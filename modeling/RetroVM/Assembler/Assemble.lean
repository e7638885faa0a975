import RetroVM.Engine.Cycle
import RetroVM.Engine.Words
import RetroVM.Lib.Numerals
import RetroVM.Lib.Words
import Mathlib.Algebra.Group.Int.Defs

/-!
# The assembler (`assembler.cpp`)

One pass over the lines of a source text: a comment is cut off, what is left is trimmed, and a line
that still holds something is one instruction word. A text is a list of characters here, and the C
library functions the assembler calls (`isspace`, `toupper`, `atoi`, `strtoul`, the extraction
operator of a stream) are written out for the "C" locale and a 64-bit `unsigned long`; `atoi` of a
number that does not fit an `int` is what the GNU C library makes of it.
-/

namespace RetroVM

open Numerals

/-! ## The C library -/

/-- `std::isspace`. -/
def isspace (c : Char) : Bool :=
  c = ' ' || c = '\t' || c = '\n' || c = '\x0B' || c = '\x0C' || c = '\r'

/-- `std::toupper`. -/
def toupper (c : Char) : Char :=
  if 'a' ≤ c ∧ c ≤ 'z' then Char.ofNat (c.toNat - 32) else c

/-- The characters a `const char*` shows of `s`. -/
def cStr (s : List Char) : List Char := s.takeWhile fun c => c ≠ '\x00'

/-- An optional sign: whether it was a minus, and what is behind it. -/
def sign : List Char → Bool × List Char
  | '+' :: s => (false, s)
  | '-' :: s => (true, s)
  | s => (false, s)

/-- The base `strtoul(_, _, 0)` reads in, and where the digits start. -/
def prefixBase : List Char → Nat × List Char
  | '0' :: x :: c :: s =>
    if (x = 'x' ∨ x = 'X') ∧ (digit 16 c).isSome then (16, c :: s) else (8, '0' :: x :: c :: s)
  | '0' :: s => (8, '0' :: s)
  | s => (10, s)

/-- `std::strtoul(s, &end, 0)`: the value, and what `end` points at. -/
def strtoul (s : List Char) : UInt64 × List Char :=
  let (negative, unsigned) := sign ((cStr s).dropWhile isspace)
  let (base, digits) := prefixBase unsigned
  let (n, rest) := scan base 0 digits
  if rest.length = digits.length then (0, cStr s)
  else if n ≥ 2 ^ 64 then (0xFFFFFFFFFFFFFFFF, rest)
  else if negative then (-UInt64.ofNat n, rest)
  else (UInt64.ofNat n, rest)

/-- `std::atoi`: `strtol` in base 10, made an `int`. -/
def atoi (s : List Char) : Int :=
  let (negative, digits) := sign ((cStr s).dropWhile isspace)
  let n := (scan 10 0 digits).1
  let v : Int := if negative then max (-n) (-2 ^ 63) else min n (2 ^ 63 - 1)
  v.bmod (2 ^ 32)

/-- `std::getline` until it fails: the lines of a text, their newlines taken off. -/
def getlines : List Char → List (List Char)
  | [] => []
  | c :: s =>
    if c = '\n' then [] :: getlines s
    else
      match getlines s with
      | [] => [[c]]
      | l :: ls => (c :: l) :: ls

/-- `operator>>` into a string: the next word, and the stream behind it. -/
def extract (s : List Char) : List Char × List Char := Words.extract isspace s

/-! ## Helpers of `assembler.cpp` -/

/-- The keys of `kOpcodes`. -/
def Opcode.mnemonic : Opcode → String
  | .opHalt => "HALT"
  | .opLoad => "LOAD"
  | .opStore => "STORE"
  | .opAdd => "ADD"
  | .opSub => "SUB"
  | .opMul => "MUL"
  | .opDiv => "DIV"
  | .opJump => "JUMP"
  | .opJnz => "JNZ"
  | .opIn => "IN"
  | .opRand => "RAND"
  | .opLi => "LI"

/-- `kOpcodes.find`. -/
def findOpcode (s : List Char) : Option Opcode :=
  Opcode.all.find? fun o => o.mnemonic.toList = s

/-- `parse_reg`; -1 is `none`. -/
def parseReg : List Char → Option (Fin 8)
  | c :: d :: s =>
    if toupper c ≠ 'R' then none
    else
      let n := atoi (d :: s)
      if h : 0 ≤ n ∧ n ≤ 7 then some ⟨n.toNat, by omega⟩ else none
  | _ => none

/-- `strip_comma`. -/
def stripComma (s : List Char) : List Char := Words.trim (fun c => c = ',' || isspace c) s

/-- `trim`. -/
def trim (s : List Char) : List Char := Words.trim isspace s

/-- `strip_comment`. -/
def stripComment (line : List Char) : List Char := line.takeWhile fun c => c ≠ ';'

/-- What `assemble_file` complains of; `line` is `lineno`. -/
inductive AsmError where
  /-- `cannot open` the source. -/
  | cannotOpenSource
  /-- `unknown opcode`. -/
  | unknownOpcode (line : Nat) (op : List Char)
  /-- `bad register`. -/
  | badRegister (line : Nat) (reg : List Char)
  /-- `missing immediate`. -/
  | missingImmediate (line : Nat)
  /-- `bad immediate`. -/
  | badImmediate (line : Nat) (tok : List Char)
  /-- `immediate exceeds 20-bit range`. -/
  | immediateRange (line : Nat) (v : UInt64)
  /-- `cannot open` the output. -/
  | cannotOpenOutput
  deriving DecidableEq

/-- `parse_imm`; `~0u` is an error. -/
def parseImm (line : Nat) (tok : List Char) : Except AsmError UInt32 :=
  if tok = [] then .error (.missingImmediate line)
  else
    let (v, rest) := strtoul tok
    if rest ≠ [] then .error (.badImmediate line tok)
    else if v > 0xFFFFF then .error (.immediateRange line v)
    else .ok v.toUInt32

/-- A register operand of `assemble_file`, checked. -/
def regOperand (line : Nat) (tok : List Char) : Except AsmError UInt32 :=
  match parseReg tok with
  | none => .error (.badRegister line tok)
  | some r => .ok (UInt32.ofNat r.val)

/-! ## `assemble_file` -/

/-- The `switch` of `assemble_file`: the word of an opcode and its two operand tokens. -/
def assembleOp (line : Nat) (op : Opcode) (a b : List Char) : Except AsmError UInt32 :=
  match op with
  | .opHalt => .ok (encode op.code 0 0 0)
  | .opIn | .opRand => do
    let dst ← regOperand line a
    return encode op.code dst 0 0
  | .opAdd | .opSub | .opMul | .opDiv => do
    let dst ← regOperand line a
    let src ← regOperand line b
    return encode op.code dst src 0
  | .opLoad | .opStore => do
    let dst ← regOperand line a
    let imm ← parseImm line b
    return encode op.code dst 0 imm
  | .opJump => do
    let imm ← parseImm line a
    return encode op.code 0 0 imm
  | .opJnz => do
    let dst ← regOperand line a
    let imm ← parseImm line b
    return encode op.code dst 0 imm
  | .opLi => do
    let dst ← regOperand line a
    let imm ← parseImm line b
    return encode op.code dst 0 imm

/-- One line of the source: nothing, or its instruction word. -/
def assembleLine (lineno : Nat) (raw : List Char) : Except AsmError (Option UInt32) :=
  let line := trim (stripComment raw)
  if line = [] then .ok none
  else
    let (op, iss) := extract line
    let (a, iss) := extract iss
    let (b, _) := extract iss
    let op := op.map toupper
    match findOpcode op with
    | none => .error (.unknownOpcode lineno op)
    | some o => (assembleOp lineno o (stripComma a) (stripComma b)).map some

/-- The loop of `assemble_file`, `lineno` lines read and `outInstrs` assembled. -/
def assembleLines : Nat → List UInt32 → List (List Char) → Except AsmError (List UInt32)
  | _, outInstrs, [] => .ok outInstrs
  | lineno, outInstrs, raw :: rest =>
    match assembleLine (lineno + 1) raw with
    | .error e => .error e
    | .ok none => assembleLines (lineno + 1) outInstrs rest
    | .ok (some w) => assembleLines (lineno + 1) (outInstrs ++ [w]) rest

/-- `assemble_file`: `source` is what is at `src_path`, `writable` whether `dst_path` can be opened.
A success leaves `out_instrs` and the bytes of the file written. -/
def assembleFile (source : Option (List Char)) (writable : Bool) :
    Except AsmError (List UInt32 × List UInt8) :=
  match source with
  | none => .error .cannotOpenSource
  | some text =>
    match assembleLines 0 [] (getlines text) with
    | .error e => .error e
    | .ok outInstrs =>
      if writable then .ok (outInstrs, imageOf outInstrs) else .error .cannotOpenOutput

/-- The value `assemble_file` returns. -/
def asmExitCode : Except AsmError (List UInt32 × List UInt8) → Nat
  | .error _ => 1
  | .ok _ => 0

end RetroVM
