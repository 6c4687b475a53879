import CommandBlocks.Files

namespace CommandBlocks

/-- The files of a working directory and of those above it, by the shortest paths to them: a name,
    behind a `../` for each directory to go up, or behind a slash in the root. None of these
    directories holds another one that a path could name. -/
abbrev FileStore := Table String (List UInt8)

namespace FileStore

/-- Where a path leads: to a directory, or to a name in a directory, which may be that of a file. A
    directory is known by the front of the shortest paths to its files. -/
inductive Target where
  | directory
  | name (directory name : String)
  deriving DecidableEq, Repr

/-- The steps of a path. Slashes side by side separate two steps only. -/
def steps (path : String) : List String :=
  ((path.toList.splitOn '/').map String.ofList).filter (· ≠ "")

/-- The directory that a path starts from. -/
def start (path : String) : String :=
  if path.toList.head? = some '/' then "/" else ""

/-- Whether a path says that it leads to a directory. -/
def namesDirectory (path : String) : Bool := path.toList.getLast? = some '/'

/-- The shortest path to the file of a name in a directory. A name has at most 255 bytes. -/
def shortestPath (directory name : String) : Except FileFault String :=
  if 255 < name.utf8ByteSize then .error .nameTooLong else .ok (directory ++ name)

/-- Takes a step of a path that is not its last, from a directory into another. -/
def enter (store : FileStore) (directory step : String) : Except FileFault String :=
  if step = "." then .ok directory
  else if step = ".." then .ok (if directory = "/" then "/" else directory ++ "../")
  else do
    let file ← shortestPath directory step
    throw (if store.contains file then .notDirectory else .notFound)

/-- Where a path leads. A path has fewer than 4096 bytes. -/
def target (store : FileStore) (path : String) : Except FileFault Target := do
  if '\x00' ∈ path.toList then throw .holdsNul
  if path.isEmpty then throw .notFound
  if 4096 ≤ path.utf8ByteSize then throw .nameTooLong
  let directory ← (steps path).dropLast.foldlM store.enter (start path)
  match (steps path).getLast? with
  | none | some "." | some ".." => return .directory
  | some name => return .name directory name

/-- The content of the file of a path. -/
def read (store : FileStore) (path : String) : Except FileFault (List UInt8) := do
  match ← store.target path with
  | .directory => throw .isDirectory
  | .name directory name =>
    match store.get? (← shortestPath directory name) with
    | none => throw .notFound
    | some bytes => if namesDirectory path then throw .notDirectory else return bytes

/-- The store with a content for the file of a path, which need not be there before. -/
def write (store : FileStore) (path : String) (bytes : List UInt8) :
    Except FileFault FileStore := do
  match ← store.target path with
  | .directory => throw .isDirectory
  | .name directory name =>
    if namesDirectory path then throw .isDirectory
    else return store.insert (← shortestPath directory name) bytes

/-- Access to the files of a store that is passed on from step to step. -/
def files : Files (StateM FileStore) where
  read path := return (← get).read path
  write path bytes := do
    match (← get).write path bytes with
    | .error fault => return .error fault
    | .ok store =>
      set store
      return .ok ()

end FileStore

end CommandBlocks
