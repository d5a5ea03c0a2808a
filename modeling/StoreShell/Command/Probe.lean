import StoreShell.Script
import StoreShell.Text.Numeral

/-!
# Probes

Commands without a use of their own, with which one can watch pipelines, redirections and failures:
they count or drop their input, write a lot, fail in a chosen way, or never end.
-/

namespace StoreShell

/-- The failure of a kind with a text; an unknown kind is the refusal of a store. -/
def Failure.ofKind (kind text : String) : Failure :=
  match kind with
  | "Lex" => .lexical text 7
  | "Syntax" => .malformed text
  | "Expansion" => .expansion "p*" text
  | "CommandNotFound" => .commandNotFound text
  | "NotFound" => .notFound text
  | "IsDirectory" => .isDirectory text
  | "NotADirectory" => .notADirectory text
  | "AlreadyExists" => .alreadyExists text
  | "ExitStatus" => .exitStatus ((Text.integer? text).getD 1)
  | "Usage" => .usage text
  | "Io" => .stream ⟨.other, text⟩
  | "IoNotFound" => .stream ⟨.notFound, text⟩
  | "IoBrokenPipe" => .stream ⟨.brokenPipe, text⟩
  | "Cancelled" => .cancelled
  | "Internal" => .internal text
  | _ => .remote text

namespace Command.Probe

/-- `args` writes each argument in brackets on a line. -/
def args : Command := fun args =>
  Task.print .out ("".intercalate (args.map fun arg => "[" ++ arg ++ "]\n"))

/-- `noisy` writes to both outputs and fails. -/
def noisy : Command := fun _ => do
  Task.print .out "out\n"
  Task.print .err "err\n"
  throw (.exitStatus 3)

def exit : Command := fun args =>
  throw (.exitStatus ((args.head?.bind Text.integer?).getD 1))

/-- `count` writes how many bytes its input has. -/
def count : Command := fun _ => do
  let bytes ← Task.collect none
  Task.print .out s!"{bytes.length}\n"

/-- The number that the first argument is, or 0. -/
def amount (args : List String) : Nat := (args.head?.bind Text.natural?).getD 0

/-- `head` writes the beginning of its input, so many bytes, and reads no more. -/
def head : Command := fun args => do
  Task.write .out (← Task.collect (some (amount args)))

/-- The most bytes that `flood` writes at once. -/
def floodPiece : Nat := 4096

def floodPieces : Nat → Task Unit
  | 0 => pure ()
  | pieces + 1 => do
    Task.write .out (List.replicate floodPiece 'x'.toUInt8)
    floodPieces pieces

/-- `flood` writes so many bytes `x`. -/
def flood : Command := fun args => do
  floodPieces (amount args / floodPiece)
  Task.write .out (List.replicate (amount args % floodPiece) 'x'.toUInt8)

/-- `drain` reads its input to the end and fails. -/
def drain : Command := fun _ => do
  let _ ← Task.collect none
  throw (.exitStatus 4)

def fail : Command := fun args =>
  throw (.ofKind (args.head?.getD "") (args.tail.head?.getD ""))

def cancel : Command := fun _ => Task.ask .cancel

def hang : Command := fun _ => Task.ofScript .hang

end Command.Probe

end StoreShell
