import TrapFacts.Command.Run
import TrapFacts.File.Gzip

/-!
The command on the files of a disk.
-/

namespace TrapFacts

/-- What the system says when a file operation fails. -/
def IoError.ofSystem : IO.Error → IoError
  | .noFileOrDirectory _ _ _ => .notFound
  | .alreadyExists _ _ _ => .alreadyExists
  | .resourceBusy _ _ => .busy
  | .inappropriateType _ code _ => if code = 21 then .isDirectory else .notDirectory
  | .invalidArgument _ code details => if code = 36 then .nameTooLong else .other details
  | e => .other (toString e)

namespace Disk

def attempt {α : Type} (action : IO α) : IO (Except IoError α) := do
  try
    return .ok (← action)
  catch e =>
    return .error (.ofSystem e)

/-- Do something with the text of a path. -/
def attemptAt {α : Type} (path : Path) (action : String → IO α) : IO (Except IoError α) := do
  if path.isTooLong then return .error .nameTooLong
  else attempt (action path.text)

def failure? : Except IoError Unit → Option IoError
  | .ok () => none
  | .error e => some e

/-- What can be opened is there. -/
def opens (path : Path) : IO Bool := do
  return (← attemptAt path fun text => IO.FS.Handle.mk text .read).isOk

def readText (path : Path) : IO (Except IoError String) := do
  match ← attemptAt path fun text => IO.FS.readBinFile text with
  | .error e => return .error e
  | .ok bytes =>
    match String.fromUTF8? bytes with
    | some s => return .ok s
    | none => return .error .invalidText

/-- Make a directory, or accept one that is there. -/
def makeDirectory (path : Path) : IO (Option IoError) := do
  match failure? (← attemptAt path fun text => IO.FS.createDir text) with
  | some .alreadyExists =>
    if ← opens { path with ending := .dot } then return none else return some .alreadyExists
  | r => return r

/-- Make the directory that the first `n` steps of a path lead to, and before it what is missing
above it. -/
def makeDirectories (path : Path) : (n : Nat) → IO (Option IoError)
  | 0 => return none
  | n + 1 => do
    match ← makeDirectory (path.take (n + 1)) with
    | some .notFound =>
      match ← makeDirectories path n with
      | some e => return some e
      | none => makeDirectory (path.take (n + 1))
    | r => return r

/-- How often a name for a temporary file is tried. -/
def temporaryTries : Nat :=
  1000

def createTemporary (directory : Path) : Nat → IO (Except IoError String)
  | 0 => return .error .alreadyExists
  | tries + 1 => do
    let name := FileTree.temporaryName (← IO.rand 0 0x80000000)
    let path := (directory.child name).text
    match ← attempt (IO.FS.Handle.mk path .writeNew) with
    | .ok _ => return .ok path
    | .error .alreadyExists => createTemporary directory tries
    | .error e => return .error e

def bytesOf : Content → ByteArray
  | .text s => s.toUTF8
  | .gzip s => Gzip.pack s.toUTF8
  | .bytes b => b

end Disk

instance : FileStore IO where
  Draft := String
  readText := Disk.readText
  contains := Disk.opens
  makeDirectories path := Disk.makeDirectories path path.steps.length
  createTemporary directory := Disk.createTemporary directory Disk.temporaryTries
  write draft content := do
    return Disk.failure? (← Disk.attempt (IO.FS.writeBinFile draft (Disk.bytesOf content)))
  move draft target := do
    return Disk.failure? (← Disk.attemptAt target fun text => IO.FS.rename draft text)
  discard draft := do
    let _ ← Disk.attempt (IO.FS.removeFile draft)

/-- Run the command in the environment of the process. -/
def runProcess (args : List String) : IO UInt32 := do
  let environment : Environment :=
    { home := (← IO.getEnv "HOME").filter fun home => !home.isEmpty
      configHome := ← IO.getEnv "XDG_CONFIG_HOME" }
  let result ← runCommand args environment
  (← IO.getStdout).putStr result.output
  (← IO.getStderr).putStr result.errors
  return result.code.toUInt32

end TrapFacts

def main (args : List String) : IO UInt32 :=
  TrapFacts.runProcess args
