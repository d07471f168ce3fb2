import GenieSdk.Lib.Bytes

/-!
# The AT commands

`genie_at_cmd_parser` with what it cuts a line with, and `cmd_cli_func` with the table of the commands. A
line is a string without its terminating NUL; a pointer into it is the rest of the string from there on.
`argv` is one array of bytes, in which row `k` starts at `32 * k`: a copy that runs over the end of a row
goes on in the next.
-/

set_option autoImplicit false

namespace GenieSdk.Model

open GenieSdk.Lib

/-- A NUL-terminated string. -/
structure CString where
  chars : List UInt8
  noNul : 0 ∉ chars

def ascii (s : String) : List UInt8 := s.toList.map fun c => UInt8.ofNat c.toNat

def atPlus : UInt8 := 0x2B

def atComma : UInt8 := 0x2C

def atEquals : UInt8 := 0x3D

def atQuestion : UInt8 := 0x3F

/-- `strchr`, for a character that is not NUL. -/
def strchr (c : UInt8) : List UInt8 → Option (List UInt8)
  | [] => none
  | x :: s => if x = c then some (x :: s) else strchr c s

/-- `strrchr`, for a character that is not NUL. -/
def strrchr (c : UInt8) : List UInt8 → Option (List UInt8)
  | [] => none
  | x :: s => (strrchr c s).or (if x = c then some (x :: s) else none)

/-! ## The classification of a line -/

/-- `AT_CMD_TYPE_e` -/
def atCmdNoAdd : ℕ := 0x1

def atCmdAdd : ℕ := 0x2

def atCmdQuery : ℕ := 0x4

def atCmdDou : ℕ := 0x8

def atCmdFind : ℕ := 0x10

def atMaxArgc : ℕ := 10

def atMaxArgvLen : ℕ := 32

/-- The flags are the three lowest bits: no `+`, a `+`, a `?`. SRCLINE: genie_at.c:137-168 -/
def argvTypeLoop (noAdd add query : Bool) : List UInt8 → ℕ
  | [] => noAdd.toNat * atCmdNoAdd + add.toNat * atCmdAdd + query.toNat * atCmdQuery
  | x :: s =>
    if x = atPlus then argvTypeLoop false true query s
    else if x = atEquals then
      match s with
      | [] => 0
      | y :: _ => if y = atQuestion then atCmdFind else atCmdDou
    else if x = atQuestion then argvTypeLoop noAdd false true s
    else argvTypeLoop noAdd add query s

/-- SRCLINE: genie_at.c:131-169 -/
def argvType (s : List UInt8) : ℕ := argvTypeLoop true false false s

/-- SRCLINE: genie_at.c:171-185 -/
def argcLen (s : List UInt8) : ℕ := s.countP fun x => x = atComma ∨ x = atQuestion ∨ x = atEquals

/-- Whether it returns 0. SRCLINE: genie_at.c:264-277 -/
def isAtCmd : List UInt8 → Bool
  | x :: y :: _ => (x = 0x41 ∨ x = 0x61) ∧ (y = 0x54 ∨ y = 0x74)
  | _ => false

/-! ## The cutting of a line -/

/-- What is written from `d` on, and whether it returns `d`. SRCLINE: genie_at.c:31-49 -/
def strChr (c : UInt8) : List UInt8 → List UInt8 × Bool
  | [] => ([0], c = 0)
  | x :: s => if x = c then ([0], true) else (x :: (strChr c s).1, (strChr c s).2)

/-- `argv`, the rows that the pointers in `argqv` point to, and the copies that were made, each with the
row it was for. -/
structure AtArgs where
  argv : Mem
  argqv : ℕ → Option ℕ
  copies : List (ℕ × List UInt8)

namespace AtArgs

/-- SRCLINE: genie_at.c:290-294 -/
def init : AtArgs := ⟨writeBytes (fun _ => 0) 0 (ascii "AT"), fun _ => none, []⟩

def copy (args : AtArgs) (k : ℕ) (bytes : List UInt8) : AtArgs :=
  { args with
    argv := writeBytes args.argv (atMaxArgvLen * k) bytes
    copies := args.copies ++ [(k, bytes)] }

/-- `argqv[k] = (char *)(&argv[k])` -/
def point (args : AtArgs) (k : ℕ) : AtArgs :=
  { args with argqv := fun i => if i = k then some k else args.argqv i }

/-- Into row `k`; the result is `none` if it returns NULL. SRCLINE: genie_at.c:51-72 -/
def charCut (args : AtArgs) (k : ℕ) (s : List UInt8) (b e : UInt8) : Option AtArgs :=
  if b = 0 then none
  else
    match strchr b s with
    | none => none
    | some stc => some (args.copy k (strChr e stc.tail).1)

/-- The rounds of the loop from `i` on, and whether they all found their comma. The result of `char_cut` is
dropped. SRCLINE: genie_at.c:357-363 -/
def cutFields (args : AtArgs) (hcc : List UInt8) (i : ℕ) : ℕ → AtArgs × Bool
  | 0 => (args, true)
  | n + 1 =>
    match strchr atComma hcc with
    | none => (args, false)
    | some hcc =>
      let args := (args.charCut (2 + i) hcc atComma atComma).getD args
      (args.point (2 + i)).cutFields hcc.tail (i + 1) n

end AtArgs

/-! ## The commands -/

/-- The handlers in the table. -/
inductive AtFunc
  | advStart | advQuery | meshReset | reboot | meshInfo | meshVer | meshMac | factyTest | meshLog
  | meshLogQuery | meshTest | meshGroup | meshGroupQuery | meshTransSend
  deriving DecidableEq

/-- `at_cmd_t` -/
structure AtCmd where
  cmdName : List UInt8
  cb : Option AtFunc
  help : List UInt8
  fcb : Option AtFunc
  deriving DecidableEq

/-- SRCLINE: genie_at.c:10-26 -/
def genieAtCommands : List AtCmd :=
  [⟨ascii "MESHADV", some .advStart, ascii "AT+MESHADV=<mode>", some .advQuery⟩,
    ⟨ascii "MESHRST", some .meshReset, ascii "AT+MESHRST", none⟩,
    ⟨ascii "REBOOT", some .reboot, ascii "AT+REBOOT", none⟩,
    ⟨ascii "MESHINF", none, ascii "AT+MESHINF", some .meshInfo⟩,
    ⟨ascii "MESHVER", none, ascii "AT+MESHVER", some .meshVer⟩,
    ⟨ascii "MESHMAC", none, ascii "AT+MESHMAC", some .meshMac⟩,
    ⟨ascii "FACTYTEST", some .factyTest, ascii "AT+FACTYTEST", none⟩,
    ⟨ascii "MESHLOG", some .meshLog, ascii "AT+MESHLOG=<mode>", some .meshLogQuery⟩,
    ⟨ascii "MESHTEST", some .meshTest, ascii "AT+MESHTEST=<opcode>,[param]", none⟩,
    ⟨ascii "MESHGRP", some .meshGroup, ascii "AT+MESHGRP=<addr1>,[addr2]...", some .meshGroupQuery⟩,
    ⟨ascii "MESHMSGTX", some .meshTransSend, ascii "AT+MESHMSGTX=<data>", none⟩,
    ⟨ascii "MESHEVT", none, ascii "+MESHEVT:<state>", none⟩,
    ⟨ascii "MESHMSGRX", none, ascii "+MESHMSGRX:<len>,<data>", none⟩]

/-- `AT_OP_CODE_e` -/
inductive AtOp
  | execute
  | fcurrent
  | hlookup
  | help
  deriving DecidableEq

/-- The arguments of `cmd_cli_func`. An argument is the row it points to, `none` if it was never set; there
are none where `argv` is NULL. -/
structure AtCall where
  type : AtOp
  argc : ℕ
  argv : List (Option ℕ)

/-- What `cmd_cli_func` does. A handler that is called has its result printed. -/
inductive AtReply
  | commands
  | called (func : AtFunc) (argc : ℕ) (argv : List (Option (List UInt8)))
  | help (text : List UInt8)
  | notFound
  deriving DecidableEq

/-- The string at `pos` in an array that ends `n` bytes further on. -/
def cString (m : Mem) (pos : ℕ) : ℕ → List UInt8
  | 0 => []
  | n + 1 => if m pos = 0 then [] else m pos :: cString m (pos + 1) n

/-- The string in row `k`. -/
def rowString (argv : Mem) (k : ℕ) : List UInt8 :=
  cString argv (atMaxArgvLen * k) (atMaxArgvLen * (atMaxArgc - k))

/-- What an execute or a query does with its handler. -/
def callAtFunc (func : Option AtFunc) (argc : ℕ) (argv : List (Option (List UInt8))) : AtReply :=
  match func with
  | some func => .called func argc argv
  | none => .notFound

/-- SRCLINE: genie_at.c:187-262 -/
def cmdCliFunc (argv : Mem) (call : AtCall) : AtReply :=
  if call.argc < 2 then .commands
  else
    let args := call.argv.map (Option.map (rowString argv))
    match genieAtCommands.find? fun cmd => args.getD 1 none = some cmd.cmdName with
    | none => .notFound
    | some cmd =>
      match call.type with
      | .execute => callAtFunc cmd.cb (call.argc - 1) args.tail
      | .fcurrent => callAtFunc cmd.fcb (call.argc - 1) args.tail
      | _ => .help cmd.help

/-! ## The parser -/

/-- How a call of the parser ends: with -1 before any lookup, at a pointer that is NULL, or with a lookup and
0. -/
inductive AtEnd
  | refused
  | nullDeref
  | looked (call : AtCall) (reply : AtReply)

/-- The lookup of the first `argc` arguments. -/
def AtArgs.look (args : AtArgs) (type : AtOp) (argc : ℕ) : AtArgs × AtEnd :=
  let args := (args.point 0).point 1
  let call : AtCall := ⟨type, argc, (List.range argc).map args.argqv⟩
  (args, .looked call (cmdCliFunc args.argv call))

/-- `case AT_CMD_DOU`. SRCLINE: genie_at.c:332-368 -/
def atCmdParserDou (args : AtArgs) (data : List UInt8) : AtArgs × AtEnd :=
  match strchr atEquals data with
  | none => (args, .nullDeref)
  | some hcc =>
    let num := argcLen hcc
    if atMaxArgc - 2 < num ∨ atMaxArgc * atMaxArgvLen < hcc.length then (args, .refused)
    else if num = 0 then (args, .refused)
    else if num = 1 then
      (((args.charCut 2 hcc atEquals 0).getD args).point 2).look .execute (num + 2)
    else
      let args := ((args.charCut 2 hcc atEquals atComma).getD args).point 2
      match args.cutFields hcc 1 (num - 1) with
      | (args, false) => (args, .nullDeref)
      | (args, true) => args.look .execute (num + 2)

/-- SRCLINE: genie_at.c:279-386 -/
def genieAtCmdParser (line : CString) : AtArgs × AtEnd :=
  let data := line.chars
  let args := AtArgs.init
  if isAtCmd data = false then (args, .refused)
  else
    let ustype := argvType data
    if ustype = atCmdNoAdd then (args, .looked ⟨.help, 1, []⟩ (cmdCliFunc args.argv ⟨.help, 1, []⟩))
    else if ustype = atCmdAdd then
      match args.charCut 1 data atPlus 0 with
      | none => (args, .refused)
      | some args => args.look .execute 2
    else if ustype = atCmdQuery then
      match args.charCut 1 data atPlus atQuestion with
      | none => (args, .refused)
      | some args => args.look .fcurrent 2
    else if ustype = atCmdDou then
      match args.charCut 1 data atPlus atEquals with
      | none => (args, .refused)
      | some args => atCmdParserDou args data
    else if ustype = atCmdFind then
      match strrchr atPlus data with
      | none => (args, .nullDeref)
      | some hcc => (args.copy 1 (strChr atEquals hcc.tail).1).look .hlookup 2
    else (args, .refused)

end GenieSdk.Model
