import CommandBlocks.Files.Store
import CommandBlocks.Proofs.Results
import CommandBlocks.Proofs.Tables

namespace CommandBlocks

/-- What a step gives and what it leaves is what is gone on with. -/
theorem run_bind_of_run {σ α β : Type} {first : StateM σ α} {next : α → StateM σ β} {s s' : σ}
    {a : α} (hfirst : first.run s = (a, s')) : (first >>= next).run s = (next a).run s' := by
  rw [StateT.run_bind, hfirst]
  rfl

namespace Files

variable {σ : Type} {files : Files (StateM σ)} {path : String} {s s' : σ} {bytes : List UInt8}

/-- A file that was written can be read, and holds what was written. -/
def Keeps (files : Files (StateM σ)) : Prop :=
  ∀ path bytes s s', (files.write path bytes).run s = (.ok (), s') →
    ∃ s'', (files.read path).run s' = (.ok bytes, s'')

theorem run_readText {text : String} (hread : (files.read path).run s = (.ok bytes, s'))
    (htext : Text.ofUtf8 bytes = .ok text) : (files.readText path).run s = (.ok text, s') := by
  rw [readText, run_bind_of_run hread]
  simp only [htext]
  rfl

theorem run_saveSnapshot {saved : Snapshot}
    (hwrite : (files.write path saved.toBytes).run s = (.ok (), s')) :
    (files.saveSnapshot path saved).run s = (.ok (), s') := by
  rw [saveSnapshot, run_bind_of_run hwrite]
  rfl

/-- A file whose bytes are those of a snapshot is loaded as that snapshot. -/
theorem run_loadSnapshot {loaded : Snapshot} (hread : (files.read path).run s = (.ok bytes, s'))
    (hload : Snapshot.ofBytes bytes = .ok loaded) :
    (files.loadSnapshot path).run s = (.ok loaded, s') := by
  rw [loadSnapshot, run_bind_of_run hread]
  simp only [hload]
  rfl

end Files

namespace FileStore

variable {store next : FileStore} {path file : String} {bytes : List UInt8}

/-- A path that names a file leads to it by the shortest path to it. -/
structure Names (store : FileStore) (path file : String) : Prop where
  target : ∃ directory name, store.target path = .ok (.name directory name) ∧
    shortestPath directory name = .ok file
  isFile : namesDirectory path = false

/-- Reading a path that leads to a file of the store gives the bytes of the file. -/
theorem read_of_names (hnames : store.Names path file) (hget : store.get? file = some bytes) :
    store.read path = .ok bytes := by
  obtain ⟨⟨directory, name, htarget, hfile⟩, hisFile⟩ := hnames
  simp [read, htarget, hfile, hget, hisFile, bind, Except.bind, pure, Except.pure]

/-- Writing succeeds just where a path leads to a place for a file, and replaces that file alone. -/
theorem write_eq_ok_iff : store.write path bytes = .ok next ↔
    ∃ file, store.Names path file ∧ store.insert file bytes = next := by
  rw [write, bind_eq_ok_iff]
  constructor
  · rintro ⟨target, htarget, hok⟩
    cases target with
    | directory => cases hok
    | name directory name =>
      cases hdirectory : namesDirectory path with
      | true => simp [hdirectory, throw, throwThe, MonadExceptOf.throw] at hok
      | false =>
        simp only [hdirectory] at hok
        obtain ⟨file, hfile, hok⟩ := bind_eq_ok_iff.1 hok
        cases hok
        exact ⟨file, ⟨⟨directory, name, htarget, hfile⟩, hdirectory⟩, rfl⟩
  · rintro ⟨file, ⟨⟨directory, name, htarget, hfile⟩, hisFile⟩, rfl⟩
    refine ⟨.name directory name, htarget, ?_⟩
    simp [hisFile, hfile, bind, Except.bind, pure, Except.pure]

theorem steps_of_notMem (hslash : '/' ∉ path.toList) (hempty : path ≠ "") :
    steps path = [path] := by
  simp [steps, List.splitOn_eq_singleton hslash, hempty]

/-- A name leads to the file of that name in the working directory. -/
theorem names_self (store : FileStore) (hnul : '\x00' ∉ path.toList) (hslash : '/' ∉ path.toList)
    (hdirectory : path ∉ ["", ".", ".."]) (hlength : path.utf8ByteSize ≤ 255) :
    store.Names path path := by
  simp only [List.mem_cons, List.not_mem_nil, or_false, not_or] at hdirectory
  obtain ⟨hempty, hdot, hup⟩ := hdirectory
  have hsteps := steps_of_notMem hslash hempty
  have hstart : start path = "" := by
    rw [start, if_neg]
    exact fun hhead => hslash (List.mem_of_head? hhead)
  refine ⟨⟨"", path, ?_, ?_⟩, ?_⟩
  · unfold FileStore.target
    simp only [throw_or_eq_ok_iff, bind_eq_ok_iff]
    refine ⟨hnul, by simpa using hempty, by omega, "", ?_, ?_⟩
    · rw [hsteps, hstart]
      rfl
    · simp [hsteps, pure, Except.pure]
  · simp [shortestPath, hlength]
  · simp only [namesDirectory, decide_eq_false_iff_not]
    exact fun hlast => hslash (List.mem_of_getLast? hlast)

/-- Which directory a path leads through does not depend on the files. -/
theorem enter_of_enter {directory step reached : String} (other : FileStore)
    (hok : store.enter directory step = .ok reached) :
    other.enter directory step = .ok reached := by
  unfold enter at hok ⊢
  by_cases hstay : step = "."
  · rwa [if_pos hstay] at hok ⊢
  · by_cases hup : step = ".."
    · rwa [if_neg hstay, if_pos hup] at hok ⊢
    · rw [if_neg hstay, if_neg hup] at hok
      obtain ⟨_, -, hthrow⟩ := bind_eq_ok_iff.1 hok
      cases hthrow

/-- Which directory several steps lead through does not depend on the files, either. -/
theorem foldlM_enter {directory reached : String} {steps : List String} (other : FileStore)
    (hok : steps.foldlM store.enter directory = .ok reached) :
    steps.foldlM other.enter directory = .ok reached := by
  induction steps generalizing directory with
  | nil => exact hok
  | cons step steps ih =>
    rw [List.foldlM_cons, bind_eq_ok_iff] at hok ⊢
    obtain ⟨entered, hentered, hrest⟩ := hok
    exact ⟨entered, enter_of_enter other hentered, ih hrest⟩

/-- Where a path leads does not depend on the files of the store. -/
theorem target_of_target {target : Target} (other : FileStore)
    (hok : store.target path = .ok target) : other.target path = .ok target := by
  unfold FileStore.target at hok ⊢
  simp only [throw_or_eq_ok_iff, bind_eq_ok_iff] at hok ⊢
  obtain ⟨hnul, hempty, hlong, directory, henter, hlast⟩ := hok
  exact ⟨hnul, hempty, hlong, directory, foldlM_enter other henter, hlast⟩

/-- What has been written under a path is read back under it. -/
theorem read_of_write (hwrite : store.write path bytes = .ok next) :
    next.read path = .ok bytes := by
  obtain ⟨file, ⟨⟨directory, name, htarget, hfile⟩, hisFile⟩, rfl⟩ := write_eq_ok_iff.1 hwrite
  have hnames : Names (store.insert file bytes) path file :=
    ⟨⟨directory, name, target_of_target _ htarget, hfile⟩, hisFile⟩
  exact read_of_names hnames (Table.get?_insert_self _ _ _)

theorem run_read (store : FileStore) (path : String) :
    (files.read path).run store = (store.read path, store) := rfl

theorem run_write (store : FileStore) (path : String) (bytes : List UInt8) :
    (files.write path bytes).run store = match store.write path bytes with
      | .error fault => (.error fault, store)
      | .ok written => (.ok (), written) := by
  change (match store.write path bytes with
    | .error fault => (return .error fault : StateM FileStore (Except FileFault Unit))
    | .ok written => do
      set written
      return .ok ()).run store = _
  cases store.write path bytes <;> rfl

/-- The store keeps what is written into its files. -/
theorem keeps_files : files.Keeps := by
  intro path bytes store next hwrite
  rw [run_write] at hwrite
  cases hwritten : store.write path bytes with
  | error fault =>
    rw [hwritten] at hwrite
    cases hwrite
  | ok written =>
    rw [hwritten] at hwrite
    cases hwrite
    exact ⟨next, by rw [run_read, read_of_write hwritten]⟩

end FileStore

end CommandBlocks
