import Mathlib.Algebra.Ring.Nat
import Mathlib.Data.List.TakeWhile
import Mathlib.Tactic.Common

namespace Elitra.Shell

/-- A line of input; its bytes are written as characters. -/
abbrev Text := List Char

def maxCmd : ℕ := 512
def maxArgs : ℕ := 32

def quote : Char := Char.ofNat 34

structure Block where
  addr : ℕ
  size : ℕ
  free : Bool

/-- `FREE_LIST` with the headers that hang on it, `ALLOC_PTR` and `HEAP_END`. -/
structure Runtime where
  blocks : List Block
  allocPtr : ℕ
  heapEnd : ℕ

def Runtime.linked : Runtime := ⟨[], 0, 0⟩

def hdrSize : ℕ := 16

def alignUp (v a : ℕ) : ℕ := (v + a - 1) % 2 ^ 64 / a * a

/-- A block of `total` bytes whose first `need` are given out. -/
def carve (addr total need : ℕ) (split : Bool) : List Block :=
  if split then [⟨addr, need, false⟩, ⟨addr + need, total - need, true⟩] else [⟨addr, total, false⟩]

def firstFit (need : ℕ) : List Block → Option (List Block × ℕ)
  | [] => none
  | b :: bs =>
    if b.free ∧ need ≤ b.size then
      some (carve b.addr b.size need (hdrSize + 8 ≤ b.size - need) ++ bs, b.addr + hdrSize)
    else (firstFit need bs).map fun (bs, p) => (b :: bs, p)

def Runtime.malloc (r : Runtime) (size : ℕ) : Runtime × Option ℕ :=
  if size = 0 then (r, none)
  else
    let need := alignUp (size + hdrSize) 8
    match firstFit need r.blocks with
    | some (blocks, p) => ({ r with blocks := blocks }, some p)
    | none =>
      let chunk := alignUp (size + hdrSize) 4096
      if r.heapEnd < r.allocPtr + chunk then (r, none)
      else
        (⟨carve r.allocPtr chunk need (need + hdrSize + 8 < chunk) ++ r.blocks,
          r.allocPtr + chunk, r.heapEnd⟩, some (r.allocPtr + hdrSize))

/-- A word, quoted or not, and what follows it. Without a closing quote a quoted word goes on to the
end of the line. -/
def nextWord (c : Char) (rest : Text) : Text × Text :=
  if c = quote then (rest.takeWhile (· ≠ quote), (rest.dropWhile (· ≠ quote)).drop 1)
  else ((c :: rest).takeWhile (· ≠ ' '), (c :: rest).dropWhile (· ≠ ' '))

/-- The words of a line, at most `room` of them. Words of 256 bytes and more, empty quoted words and
words that get no memory are left out. The fuel is the length of the line. -/
def parseArgsIn : ℕ → ℕ → Runtime → Text → Runtime × List Text
  | 0, _, r, _ => (r, [])
  | fuel + 1, room, r, line =>
    match line.dropWhile (· = ' ') with
    | [] => (r, [])
    | c :: rest =>
      if room = 0 then (r, [])
      else
        let (word, after) := nextWord c rest
        match if word ≠ [] ∧ word.length < 256 then r.malloc (word.length + 1) else (r, none) with
        | (r, some _) =>
          let (r, words) := parseArgsIn fuel (room - 1) r after
          (r, word :: words)
        | (r, none) => parseArgsIn fuel room r after

def parseLine (r : Runtime) (line : Text) : Runtime × List Text :=
  parseArgsIn (line.length + 1) (maxArgs - 1) r line

inductive RedirKind where
  | output
  | append
  | input
  deriving DecidableEq

inductive Message where
  | pipeUsage
  | cannotOpen
  deriving DecidableEq

/-- What a line makes the shell do. `lookup` looks whether a program exists, `redirect` connects a
file, `fork` does something in a child and waits for it, and `pipe` runs two children with the
output of the first as the input of the second. -/
inductive Behaviour where
  | nothing
  | run (argv : List Text)
  | lookup (argv : List Text)
  | redirect (kind : RedirKind) (path : Text) (b : Behaviour)
  | message (m : Message)
  | exit
  | panic
  | seq (first second : Behaviour)
  | fork (child : Behaviour)
  | pipe (left right : Behaviour)
  deriving DecidableEq

/-- Whether the shell itself ends. The panic handler calls `sys_exit`. -/
def Behaviour.ends : Behaviour → Bool
  | .exit | .panic => true
  | .seq first second => first.ends || second.ends
  | _ => false

def Behaviour.andThen (first second : Behaviour) : Behaviour :=
  if first.ends then first else .seq first second

def splitAtChar (c : Char) (line : Text) : Option (Text × Text) :=
  match line.dropWhile (· ≠ c) with
  | [] => none
  | _ :: right => some (line.takeWhile (· ≠ c), right)

def splitAnd : Text → Option (Text × Text)
  | '&' :: '&' :: right => some ([], right)
  | c :: rest => (splitAnd rest).map fun (left, right) => (c :: left, right)
  | [] => none

def trimEnd (line : Text) : Text := (line.reverse.dropWhile (· = ' ')).reverse

/-- A side of an operator, as it is copied into a buffer of `MAX_CMD` bytes. -/
def side (line : Text) : Text := trimEnd (line.take (maxCmd - 1))

def builtins : List Text :=
  ["help", "?", "clear", "clr", "pwd", "echo", "say", "cd", "ls", "list", "cat", "dump", "touch",
    "create", "mkdir", "md", "rm", "del", "rmdir", "mv", "cp", "uname", "ver", "reboot", "rst",
    "poweroff", "off", "kill", "ps", "jobs", "tee", "env", "setenv", "unsetenv", "export", "free",
    "lspci", "dmesg", "top", "uptime"].map String.toList

def mntBin : Text := "/mnt/bin/".toList

/-- The end of `run_command`: a builtin, or a program, for whose path `copy_from_slice` wants ten
bytes. -/
def runSimple (args : List Text) : Behaviour :=
  let cmd := args.headD []
  if cmd = "exit".toList ∨ cmd = "quit".toList then .exit
  else if cmd ∈ builtins then .run args
  else if mntBin.length ≠ 10 then .panic
  else .fork (.run args)

def command (line : Text) : Text := line.takeWhile fun c => c ≠ '>' ∧ c ≠ '<'

def redirection (line : Text) : Text := line.dropWhile fun c => c ≠ '>' ∧ c ≠ '<'

/-- The path of a redirection, in an array of 256 bytes. -/
def redirPath (line : Text) : Text :=
  let operator := redirection line
  let path := ((if operator.take 2 = ['>', '>'] then operator.drop 2 else operator.drop 1).dropWhile
    (· = ' ')).takeWhile fun c => c ≠ ' ' ∧ c ≠ ';' ∧ c ≠ '|'
  path.take 255 ++ List.replicate (256 - (path.take 255).length) (Char.ofNat 0)

/-- `sys_open` refuses paths of 254 bytes and more. -/
def sysOpen (path : Text) : Bool := path.length < 254

/-- A redirection of either kind. That the output is to be appended is not looked at, and `try_exec`
only looks for the program. -/
def runRedirected (r : Runtime) (line : Text) : Runtime × Behaviour :=
  let (r, args) := parseLine r (command line)
  let kind := if (redirection line).take 1 = ['>'] then RedirKind.output else .input
  if args = [] then (r, .nothing)
  else if sysOpen (redirPath line) then (r, .fork (.redirect kind (redirPath line) (.lookup args)))
  else (r, .message .cannotOpen)

def orNothing (f : Runtime → Text → Runtime × Behaviour) (r : Runtime) (line : Text) :
    Runtime × Behaviour :=
  if line = [] then (r, .nothing) else f r line

/-- `run_command`; the fuel is the length of the line. The words are not given back, and a child
works on a copy of the heap. Fork and pipe creation succeed, and a child that comes to its end has
status 0, so that the right side of `&&` always runs. -/
def runFuel : ℕ → Runtime → Text → Runtime × Behaviour
  | 0, r, _ => (r, .nothing)
  | fuel + 1, r, line =>
    let (r, args) := parseLine r line
    if args = [] then (r, .nothing)
    else
      -- The operators are looked for in the whole line, also between quotes.
      match splitAtChar ';' line with
      | some (left, right) =>
        let (r, first) := orNothing (runFuel fuel) r (side left)
        let (r, second) := orNothing (runFuel fuel) r (side right)
        (r, first.andThen second)
      | none =>
        match splitAnd line with
        | some (left, right) =>
          if side left = [] then orNothing (runFuel fuel) r (side right)
          else
            let (_, child) := runFuel fuel r (side left)
            let (r, second) := orNothing (runFuel fuel) r (side right)
            (r, .seq (.fork child) second)
        | none =>
          -- The search for `|` ends at the first redirection; with a `|` before it the
          -- redirection is not looked at.
          match splitAtChar '|' (command line) with
          | some (left, right) =>
            let right := (right.take (maxCmd - 1)).dropWhile (· = ' ')
            if side left = [] ∨ right = [] then (r, .message .pipeUsage)
            else (r, .pipe (runFuel fuel r (side left)).2 (runFuel fuel r right).2)
          | none =>
            if (command line).length < line.length then runRedirected r line
            else (r, runSimple args)

def runCommand (r : Runtime) (line : Text) : Runtime × Behaviour :=
  runFuel (line.length + 1) r line

end Elitra.Shell
