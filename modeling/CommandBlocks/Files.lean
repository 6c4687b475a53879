import CommandBlocks.Snapshot.Bytes

namespace CommandBlocks

/-- Why a file could not be read or written. -/
inductive FileFault where
  | notFound
  | isDirectory
  /-- A file where the path needs a directory. -/
  | notDirectory
  | nameTooLong
  /-- A path with a character that no path may hold. -/
  | holdsNul
  /-- A content that is no text. -/
  | notText
  /-- Any other reason that the file system gives, in its words. -/
  | other (reason : String)
  deriving DecidableEq, Repr

def FileFault.message : FileFault → String
  | notFound => "No such file or directory (os error 2)"
  | isDirectory => "Is a directory (os error 21)"
  | notDirectory => "Not a directory (os error 20)"
  | nameTooLong => "File name too long (os error 36)"
  | holdsNul => "file name contained an unexpected NUL byte"
  | notText => "stream did not contain valid UTF-8"
  | other reason => reason

/-- Reading and writing whole files. -/
structure Files (m : Type → Type) where
  read : String → m (Except FileFault (List UInt8))
  write : String → List UInt8 → m (Except FileFault Unit)

/-- Why a snapshot in a file could not be used. -/
inductive SnapshotFault where
  | inaccessible (path : String) (fault : FileFault)
  | unreadable (fault : Bytes.Fault)
  deriving DecidableEq, Repr

def SnapshotFault.message : SnapshotFault → String
  | inaccessible path fault => s!"Snapshot file '{path}' could not be accessed: {fault.message}"
  | unreadable fault => s!"Snapshot deserialization failed: {fault.message}"

namespace Files

variable {m : Type → Type} [Monad m]

/-- The text of a file. -/
def readText (files : Files m) (path : String) : m (Except FileFault String) := do
  match ← files.read path with
  | .error fault => return .error fault
  | .ok bytes => return (Text.ofUtf8 bytes).mapError fun _ => .notText

/-- Writes a snapshot into a file. -/
def saveSnapshot (files : Files m) (path : String) (s : Snapshot) :
    m (Except SnapshotFault Unit) := do
  return (← files.write path s.toBytes).mapError (.inaccessible path)

/-- Reads a snapshot from a file. -/
def loadSnapshot (files : Files m) (path : String) : m (Except SnapshotFault Snapshot) := do
  match ← files.read path with
  | .error fault => return .error (.inaccessible path fault)
  | .ok bytes => return (Snapshot.ofBytes bytes).mapError .unreadable

end Files

end CommandBlocks
