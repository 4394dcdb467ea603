import TrapFacts.File.Store
import TrapFacts.Record

/-!
Trap files. A trap is written to a temporary file beside its target and moved into place when it is
finished, so nobody sees half of it.
-/

namespace TrapFacts

variable {m : Type → Type} [Monad m] [FileStore m]

/-- A trap file at work. -/
structure TrapFile (m : Type → Type) [FileStore m] where
  target : Path
  compression : Compression
  draft : FileStore.Draft m

namespace TrapFile

/-- Start a trap file. Its directory is made if it is missing. -/
def create (target : Path) (compression : Compression) : m (Except IoError (TrapFile m)) := do
  let directory := target.directory
  match ← FileStore.makeDirectories directory with
  | some e => return .error e
  | none =>
    match ← FileStore.createTemporary directory with
    | .error e => return .error e
    | .ok draft => return .ok { target, compression, draft }

/-- Give up a trap file. -/
def abandon (f : TrapFile m) : m Unit :=
  FileStore.discard f.draft

/-- Write the records and move the file into place. Nothing is left of one that cannot be moved. -/
def finish (f : TrapFile m) (records : List Record) : m (Except IoError Unit) := do
  let failure ← match ← FileStore.write f.draft (.pack f.compression (trapText records)) with
    | some e => pure (some e)
    | none => FileStore.move f.draft f.target
  match failure with
  | none => return .ok ()
  | some e =>
    f.abandon
    return .error e

end TrapFile

end TrapFacts
