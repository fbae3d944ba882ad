/-
**Host directories shown to a guest.**

The filesystem service of a directory on the host takes paths from the guest.  A path is checked as
a text, its components are pushed onto the configured root one after another, and each of the paths
on the way must exist and not be a symbolic link; an entry that is to be created is pushed onto the
path of its parent and must not exist.  What the host answers is an argument, so that nothing is
assumed of the directories on it; what the service does to the host is logged.

Main definitions:

* `normalizePath`, `normalizeHostPath` — the checks of a text;
* `resolveExisting`, `resolveNew` — the walks;
* `dispatchHostFilesystem` — the requests.

Main results:

* `host_paths_confined` — **every path the service touches is the root followed by the components of
  the guest's path, if the host takes each component for one name**, and no component on the way is
  a link.
-/
import Nixe.CallLog
import Nixe.HostPath

set_option autoImplicit false

namespace Nixe.HostFilesystem

open HostPath List Call

/-! ### Texts -/

/-- `IpcResultCode`, as far as the service returns it. -/
inductive IpcResultCode
  | invalidArgument
  | accessDenied
  | pathNotFound
  | notAFile
  | notADirectory
  | noSpace
  | resourceLimit
  | storageFailure
  | targetLocked
  | writeFileNotClosed
  | invalidCommand
  deriving DecidableEq, Repr

def maxIpcPathBytes : ℕ := 0x300

def maxHostNameBytes : ℕ := 255

def byteLength (text : List Char) : ℕ := (text.map Char.utf8Size).sum

/-- `str::split('/')`. -/
def split (text : List Char) : List (List Char) := text.splitOnP (· == '/')

def normalizePath (path : List Char) : Except IpcResultCode (List Char) :=
  if path.isEmpty || byteLength path > maxIpcPathBytes || path.head? != some '/' ||
      path.contains '\x00' then .error .invalidArgument
  else if path = ['/'] then .ok path
  else if path.getLast? == some '/' || ((split path).drop 1).any (fun component =>
      component.isEmpty || component == ['.'] || component == ['.', '.']) then
    .error .invalidArgument
  else .ok path

def normalizeHostPath (path : List Char) : Except IpcResultCode (List Char) := do
  let path ← normalizePath path
  if (split path).any (fun name => byteLength name > maxHostNameBytes) then .error .invalidArgument
  else .ok path

/-! ### Walks -/

/-- `io::ErrorKind`, as far as it is looked at. -/
inductive IoErrorKind
  | notFound
  | permissionDenied
  | alreadyExists
  | invalidInput
  | other
  deriving DecidableEq, Repr

/-- `io::Error`. -/
structure IoError where
  kind : IoErrorKind
  message : String
  deriving DecidableEq, Repr

inductive FileType
  | file
  | directory
  | symlink
  | other
  deriving DecidableEq, Repr

/-- An entry that `read_dir` returns; a name may not be a text. -/
structure DirEntry where
  fileType : Except IoError FileType
  fileName : Option (List Char)
  size : Except IoError ℕ

/-- What the service does to the host. -/
inductive HostOperation
  | inspect
  | open
  | remove
  | createFile
  | createDirectory
  | list
  deriving DecidableEq, Repr

/-- The answers of the host, for every path. -/
structure Host where
  symlinkMetadata : List Char → Except IoError FileType
  metadata : List Char → Except IoError (FileType × ℕ)
  perform : HostOperation → List Char → Except IoError Unit
  setLen : List Char → ℕ → Except IoError Unit
  /-- `none` for a lock that another handle holds. -/
  lock : List Char → Except (Option IoError) Unit
  readDir : List Char → List (Except IoError DirEntry)
  /-- Whether the process has a handle left. -/
  insertHandle : Bool
  /-- `TransactionalDirectory::commit`, which works on directories of its own. -/
  commit : Except IoError Unit

/-- The loop of `resolve_existing`. -/
def walk (rules : Rules) (host : Host) : List Char → List (List Char) → Except IoError (List Char)
  | resolved, [] => .ok resolved
  | resolved, component :: components =>
    if component.isEmpty then walk rules host resolved components
    else
      match host.symlinkMetadata (push rules resolved component) with
      | .error e => .error e
      | .ok .symlink => .error ⟨.permissionDenied,
          "symbolic links are not exposed through host filesystems"⟩
      | .ok _ => walk rules host (push rules resolved component) components

def resolveExisting (rules : Rules) (host : Host) (root : Option (List Char))
    (guestPath : List Char) : Except IoError (List Char) :=
  match root with
  | none => .error ⟨.notFound, "filesystem has no host backing"⟩
  | some root => walk rules host root (split (guestPath.dropWhile (· == '/')))

/-- `str::rsplit_once('/')`. -/
def rsplitOnce : List Char → Option (List Char × List Char)
  | [] => none
  | c :: rest =>
    match rsplitOnce rest with
    | some (parent, name) => some (c :: parent, name)
    | none => if c = '/' then some ([], rest) else none

def resolveNew (rules : Rules) (host : Host) (root : Option (List Char)) (guestPath : List Char) :
    Except IoError (List Char) :=
  match rsplitOnce guestPath with
  | none => .error ⟨.invalidInput, "SD-card path has no parent"⟩
  | some (parent, name) => do
      if name.isEmpty then .error ⟨.invalidInput, "cannot create the SD-card root"⟩
      else
        let resolved ← resolveExisting rules host root (if parent.isEmpty then ['/'] else parent)
        match host.symlinkMetadata (push rules resolved name) with
        | .ok _ => .error ⟨.alreadyExists, "SD-card entry already exists"⟩
        | .error e => if e.kind = .notFound then .ok (push rules resolved name) else .error e

/-! ### The service -/

/-- `HomebrewIdentity`: a file of the loader that is shown at a path of the guest. -/
structure HomebrewIdentity where
  guestPath : List Char
  size : ℕ

/-- `ProcessMountNamespace`, as far as it is looked at. -/
structure Mounts where
  allowsSdCardAccess : Bool
  homebrewExecutable : Option HomebrewIdentity

/-- The counters of the volume behind a save filesystem, and the paths changed since its commit. -/
structure SaveVolume where
  capacity : ℕ
  used : ℕ
  dirty : List (List Char)
  writers : ℕ
  deriving DecidableEq, Repr

/-- The volume, and what was done to the host, newest first. -/
structure State where
  save : Option SaveVolume
  acts : List (HostOperation × List Char)

/-- A request in progress. -/
abbrev ServiceCall := Call State IpcResultCode

inductive DirectoryEntryKind
  | file
  | directory
  deriving DecidableEq, Repr

/-- The objects behind the handles that the service returns. -/
inductive Opened
  | readOnlyFile (path : List Char) (size : ℕ)
  | hostFile (path : List Char) (readable writable allowAppend : Bool)
  | directory (path : List Char) (entries : List (List Char × DirectoryEntryKind × ℕ))
  deriving DecidableEq, Repr

/-- `IpcResponse`, as far as the service returns it. -/
inductive IpcResponse
  | none
  | fileSystemAttribute (nameLengthMax pathLengthMax : ℕ)
  | entryType (kind : DirectoryEntryKind)
  | handle (object : Opened)
  deriving DecidableEq, Repr

/-- `IpcRequest`; `other` are the requests that the service does not know. -/
inductive IpcRequest
  | getFileSystemAttribute
  | deleteFile (path : List Char)
  | getEntryType (path : List Char)
  | createFile (path : List Char) (size option : ℕ)
  | createDirectory (path : List Char)
  | openFile (path : List Char) (mode : ℕ)
  | openDirectory (path : List Char) (mode : ℕ)
  | commitFileSystem
  | other
  deriving DecidableEq, Repr

def maxIpcListEntries : ℕ := 1024

def mapHostIoError (e : IoError) : IpcResultCode :=
  match e.kind with
  | .notFound => .pathNotFound
  | .permissionDenied => .accessDenied
  | _ => .storageFailure

def mapHostFileLockError : Option IoError → IpcResultCode
  | none => .targetLocked
  | some e => mapHostIoError e

/-- The answer of the host to a call without effects. -/
def answer {α : Type} (result : Except IoError α) : ServiceCall α :=
  match result with
  | .ok a => pure a
  | .error e => fail (mapHostIoError e)

def touch (operation : HostOperation) (path : List Char) : ServiceCall Unit :=
  update fun s => { s with acts := (operation, path) :: s.acts }

/-- A call of the host on a path. -/
def perform (host : Host) (operation : HostOperation) (path : List Char) : ServiceCall Unit := do
  touch operation path
  answer (host.perform operation path)

def metadata (host : Host) (path : List Char) : ServiceCall (FileType × ℕ) := do
  touch .inspect path
  answer (host.metadata path)

/-- `File::try_lock` and `File::try_lock_shared`. -/
def tryLock (host : Host) (path : List Char) : ServiceCall Unit :=
  match host.lock path with
  | .ok () => pure ()
  | .error e => fail (mapHostFileLockError e)

/-- `normalize_host_path` in a request. -/
def normalized (path : List Char) : ServiceCall (List Char) := ofExcept (normalizeHostPath path)

variable (rest : List Char) (volume : SaveVolume)
  {text component name parent root resolved : List Char}

def SaveVolume.canResize (old new : ℕ) : Bool :=
  old ≤ volume.used ∧ volume.used - old + new < 2 ^ 64 ∧ volume.used - old + new ≤ volume.capacity

def SaveVolume.markChanged (path : List Char) : SaveVolume :=
  { volume with dirty := volume.dirty.insert (path.dropWhile (· == '/')) }

def SaveVolume.recordResize (path : List Char) (old new : ℕ) : SaveVolume :=
  { volume with used := volume.used - old + new }.markChanged path

/-- `if let Some(volume) = save.as_mut() { … }`. -/
def withVolume (change : SaveVolume → SaveVolume) : ServiceCall Unit :=
  update fun s => { s with save := s.save.map change }

/-- `is_reserved_homebrew_path`: the directory at the root that holds the file of the loader. -/
def isReservedHomebrewPath (mounts : Mounts) (path : List Char) : Bool :=
  match mounts.homebrewExecutable with
  | none => false
  | some identity =>
    match identity.guestPath with
    | '/' :: rest =>
      let root := '/' :: (split rest).headD []
      path == root || root.isPrefixOf path && (path.drop root.length).head? == some '/'
    | _ => false

def isHomebrewVirtualDirectory (filePath path : List Char) : Bool :=
  path == ['/'] || path.isPrefixOf filePath && (filePath.drop path.length).head? == some '/'

def insertHandle (host : Host) (object : Opened) : ServiceCall IpcResponse :=
  if host.insertHandle then pure (.handle object) else fail .resourceLimit

section Service

variable (rules : Rules) (host : Host) (mounts : Mounts) (root : Option (List Char))
  (path : List Char)

def deleteFile : ServiceCall IpcResponse := do
  let path ← normalized path
  failIf (isReservedHomebrewPath mounts path) .accessDenied
  let hostPath ← answer (resolveExisting rules host root path)
  let found ← metadata host hostPath
  failIf (found.1 ≠ .file) .notAFile
  perform host .open hostPath
  tryLock host hostPath
  perform host .remove hostPath
  withVolume (·.recordResize path found.2 0)
  pure .none

def getEntryType : ServiceCall IpcResponse := do
  let path ← normalized path
  let s ← read
  match s.save, mounts.homebrewExecutable with
  | none, some identity =>
    if path = identity.guestPath then pure (.entryType .file)
    else if isHomebrewVirtualDirectory identity.guestPath path then pure (.entryType .directory)
    else kindOf path
  | _, _ => kindOf path
where
  /-- The kind of an entry on the host. -/
  kindOf (path : List Char) : ServiceCall IpcResponse := do
    let hostPath ← answer (resolveExisting rules host root path)
    let found ← metadata host hostPath
    match found.1 with
    | .directory => pure (.entryType .directory)
    | .file => pure (.entryType .file)
    | _ => fail .pathNotFound

def createFile (size option : ℕ) : ServiceCall IpcResponse := do
  failIf (option ≠ 0) .invalidArgument
  let path ← normalized path
  failIf (isReservedHomebrewPath mounts path) .accessDenied
  let hostPath ← answer (resolveNew rules host root path)
  let s ← read
  failIf (s.save.any fun volume => !volume.canResize 0 size) .noSpace
  perform host .createFile hostPath
  match host.setLen hostPath size with
  | .error e => do
      touch .remove hostPath
      fail (mapHostIoError e)
  | .ok () => do
      withVolume (·.recordResize path 0 size)
      pure .none

def createDirectory : ServiceCall IpcResponse := do
  let path ← normalized path
  failIf (isReservedHomebrewPath mounts path) .accessDenied
  let hostPath ← answer (resolveNew rules host root path)
  perform host .createDirectory hostPath
  withVolume (·.markChanged path)
  pure .none

/-- `OpenFile` for a file on the host. -/
def openHostFile (mode : ℕ) : ServiceCall IpcResponse := do
  let hostPath ← answer (resolveExisting rules host root path)
  let found ← metadata host hostPath
  failIf (found.1 ≠ .file) .notAFile
  perform host .open hostPath
  tryLock host hostPath
  let response ← insertHandle host
    (.hostFile path (mode.testBit 0) (mode.testBit 1) (mode.testBit 2))
  if mode.testBit 1 then withVolume fun volume => { volume with writers := volume.writers + 1 }
  else pure ()
  pure response

/-- `OpenFile`: the modes are to read, to write and to append. -/
def openFile (mode : ℕ) : ServiceCall IpcResponse := do
  failIf (mode &&& 3 = 0 ∨ 8 ≤ mode) .invalidArgument
  let path ← normalized path
  match mounts.homebrewExecutable with
  | none => openHostFile rules host root path mode
  | some identity =>
    if path = identity.guestPath then do
      failIf (mode &&& 6 ≠ 0) .accessDenied
      insertHandle host (.readOnlyFile path identity.size)
    else if isHomebrewVirtualDirectory identity.guestPath path then fail .notAFile
    else if isReservedHomebrewPath mounts path then fail .pathNotFound
    else openHostFile rules host root path mode

/-- The entries of a directory, in the order of their names. -/
abbrev Entries := List (List Char × DirectoryEntryKind × ℕ)

def Entries.insert : Entries → List Char → DirectoryEntryKind × ℕ → Entries
  | [], name, entry => [(name, entry)]
  | (name', entry') :: entries, name, entry =>
    if name = name' then (name, entry) :: entries
    else if name.map Char.toNat < name'.map Char.toNat then
      (name, entry) :: (name', entry') :: entries
    else (name', entry') :: Entries.insert entries name entry

def insertHomebrewDirectoryChild (entries : Entries) (identity : HomebrewIdentity)
    (path : List Char) (mode : ℕ) : Entries :=
  let start := if path = ['/'] then ['/'] else path ++ ['/']
  if start.isPrefixOf identity.guestPath then
    let remainder := identity.guestPath.drop start.length
    if remainder.contains '/' then
      if mode.testBit 0 then entries.insert ((split remainder).headD []) (.directory, 0)
      else entries
    else if !remainder.isEmpty && mode.testBit 1 then
      entries.insert remainder (.file, if mode.testBit 31 then 0 else identity.size)
    else entries
  else entries

/-- The loop over the entries that the host returns. -/
def collectHostEntries (mode : ℕ) : List (Except IoError DirEntry) → Entries → ServiceCall Entries
  | [], entries => pure entries
  | entry :: rest, entries => do
      let entry ← answer entry
      let fileType ← answer entry.fileType
      if fileType = .symlink then collectHostEntries mode rest entries
      else do
        let name ← okOr entry.fileName .storageFailure
        if byteLength name > maxIpcPathBytes then collectHostEntries mode rest entries
        else if fileType = .directory && mode.testBit 0 then
          add rest (entries.insert name (.directory, 0))
        else if fileType = .file && mode.testBit 1 then do
          let size ← sizeOf entry
          add rest (entries.insert name (.file, size))
        else collectHostEntries mode rest entries
where
  /-- The size of a file, if it is asked for. -/
  sizeOf (entry : DirEntry) : ServiceCall ℕ :=
    if mode.testBit 31 then pure 0 else answer entry.size
  /-- The limit on the entries. -/
  add (rest : List (Except IoError DirEntry)) (entries : Entries) : ServiceCall Entries :=
    if entries.length > maxIpcListEntries then fail .resourceLimit
    else collectHostEntries mode rest entries

def collectDirectoryEntries (entries : Entries) : ServiceCall Entries := do
  failIf (entries.length > maxIpcListEntries) .resourceLimit
  pure entries

/-- The part of `host_directory_entries` that looks at the host. -/
def listHostDirectory (mode : ℕ) : ServiceCall Entries :=
  if root.isNone then pure []
  else do
    let hostPath ← answer (resolveExisting rules host root path)
    let found ← metadata host hostPath
    failIf (found.1 ≠ .directory) .notADirectory
    perform host .list hostPath
    collectHostEntries mode (host.readDir hostPath) []

/-- `host_directory_entries` for a path outside the directory of the loader. -/
def outerDirectoryEntries (mode : ℕ) : ServiceCall Entries := do
  let entries ← listHostDirectory rules host root path mode
  match mounts.homebrewExecutable with
  | some identity => do
      failIf (root.isNone && !isHomebrewVirtualDirectory identity.guestPath path) .pathNotFound
      collectDirectoryEntries (insertHomebrewDirectoryChild entries identity path mode)
  | none => do
      failIf root.isNone .pathNotFound
      collectDirectoryEntries entries

def hostDirectoryEntries (mode : ℕ) : ServiceCall Entries :=
  match mounts.homebrewExecutable with
  | some identity =>
    if path = identity.guestPath then fail .notADirectory
    else if isReservedHomebrewPath mounts path then do
      failIf (!isHomebrewVirtualDirectory identity.guestPath path) .pathNotFound
      collectDirectoryEntries (insertHomebrewDirectoryChild [] identity path mode)
    else outerDirectoryEntries rules host mounts root path mode
  | none => outerDirectoryEntries rules host mounts root path mode

/-- `OpenDirectory`: the modes are for directories, for files and for files without their size. -/
def openDirectory (mode : ℕ) : ServiceCall IpcResponse := do
  failIf (mode &&& 3 = 0 ∨ mode &&& (2 ^ 31 + 3) ≠ mode) .invalidArgument
  let path ← normalized path
  let entries ← hostDirectoryEntries rules host mounts root path mode
  insertHandle host (.directory path entries)

def commitFileSystem : ServiceCall IpcResponse := do
  let s ← read
  match s.save with
  | none => pure .none
  | some volume => do
      failIf (volume.writers ≠ 0) .writeFileNotClosed
      answer host.commit
      withVolume fun volume => { volume with dirty := [] }
      pure .none

def dispatchHostFilesystem (request : IpcRequest) : ServiceCall IpcResponse := do
  let s ← read
  failIf (s.save.isNone && !mounts.allowsSdCardAccess) .accessDenied
  match request with
  | .getFileSystemAttribute => pure (.fileSystemAttribute maxHostNameBytes maxIpcPathBytes)
  | .deleteFile path => deleteFile rules host mounts root path
  | .getEntryType path => getEntryType rules host mounts root path
  | .createFile path size option => createFile rules host mounts root path size option
  | .createDirectory path => createDirectory rules host mounts root path
  | .openFile path mode => openFile rules host mounts root path mode
  | .openDirectory path mode => openDirectory rules host mounts root path mode
  | .commitFileSystem => commitFileSystem host
  | .other => fail .invalidCommand

end Service

def IpcRequest.path : IpcRequest → Option (List Char)
  | .deleteFile path | .getEntryType path | .createFile path _ _ | .createDirectory path
  | .openFile path _ | .openDirectory path _ => some path
  | _ => none

/-- The components of a path of the guest. -/
def components (path : List Char) : List (List Char) :=
  if path = ['/'] then [] else (split path).drop 1

/-! ### Accepted paths -/

variable {rules : Rules} {host : Host} {path : List Char}

theorem slash_not_mem_split (h : component ∈ split text) : '/' ∉ component := by
  intro hmem
  have hslash := mem_splitOnP h '/' hmem
  cases hslash

theorem normalizeHostPath_ok {path' : List Char} (h : normalizeHostPath path = .ok path') :
    path' = path ∧ path.head? = some '/' ∧ ∀ component ∈ components path,
      component ≠ [] ∧ component ≠ ['.'] ∧ component ≠ ['.', '.'] ∧ '/' ∉ component := by
  obtain ⟨path'', hnormal, hnames⟩ := except_bind_eq_ok.1 h
  have hsame : path' = path'' := by
    split at hnames
    · cases hnames
    · exact (Except.ok.inj hnames).symm
  unfold normalizePath at hnormal
  split at hnormal
  · cases hnormal
  rename_i hfirst
  have hhead : path.head? = some '/' := by
    simp only [Bool.or_eq_true, not_or, Bool.not_eq_true, bne_eq_false_iff_eq] at hfirst
    exact hfirst.1.2
  split at hnormal
  · rename_i hroot
    refine ⟨hsame.trans (Except.ok.inj hnormal).symm, hhead, fun component hmem => ?_⟩
    rw [components, if_pos hroot] at hmem
    exact absurd hmem not_mem_nil
  · rename_i hroot
    split at hnormal
    · cases hnormal
    rename_i hclean
    simp only [Bool.or_eq_true, not_or, any_eq_true, not_exists, not_and] at hclean
    refine ⟨hsame.trans (Except.ok.inj hnormal).symm, hhead, fun component hmem => ?_⟩
    rw [components, if_neg hroot] at hmem
    have hcomponent := hclean.2 component hmem
    simp only [List.isEmpty_iff, beq_iff_eq] at hcomponent
    exact ⟨hcomponent.1.1, hcomponent.1.2, hcomponent.2, slash_not_mem_split (mem_of_mem_drop hmem)⟩

def Accepted (path : List Char) : Prop := normalizeHostPath path = .ok path

/-- The components of a text that are not empty. -/
def named (text : List Char) : List (List Char) :=
  (split text).filter fun component => !component.isEmpty

theorem named_slash : named ('/' :: rest) = named rest := by
  rfl

theorem named_dropWhile (text : List Char) : named (text.dropWhile (· == '/')) = named text := by
  induction text with
  | nil => rfl
  | cons c text ih =>
    by_cases hc : c = '/'
    · rw [dropWhile_cons_of_pos (by simpa using hc), ih, hc, named_slash]
    · rw [dropWhile_cons_of_neg (by simpa using hc)]

theorem named_append (hname : '/' ∉ name) (hne : name ≠ []) :
    named (parent ++ '/' :: name) = named parent ++ [name] := by
  have hsingle : split name = [name] := splitOnP_eq_singleton fun c hc =>
    Bool.eq_false_iff.2 fun hslash => hname ((beq_iff_eq.1 hslash) ▸ hc)
  have happend : split (parent ++ '/' :: name) = split parent ++ split name :=
    splitOnP_append_cons parent name rfl
  rw [named, happend, hsingle]
  simp [named, hne]

theorem components_eq_named (h : Accepted path) : components path = named path := by
  obtain ⟨-, hhead, hnames⟩ := normalizeHostPath_ok h
  obtain ⟨rest, rfl⟩ : ∃ rest, path = '/' :: rest := by
    cases path with
    | nil => cases hhead
    | cons c rest => exact ⟨rest, by rw [Option.some.inj hhead]⟩
  cases rest with
  | nil => rfl
  | cons =>
    refine (filter_eq_self.2 fun component hmem => ?_).symm
    simpa using (hnames component hmem).1

/-! ### Walks -/

/-- No component on the way is a link. -/
def Clear (rules : Rules) (host : Host) (root : List Char) (components : List (List Char)) : Prop :=
  ∀ k, 0 < k → k ≤ components.length →
    host.symlinkMetadata (joined rules root (components.take k)) ≠ .ok .symlink

theorem Clear.cons {components : List (List Char)}
    (hfirst : host.symlinkMetadata (push rules root component) ≠ .ok .symlink)
    (h : Clear rules host (push rules root component) components) :
    Clear rules host root (component :: components) := by
  intro k hpos hle
  obtain ⟨k, rfl⟩ : ∃ j, k = j + 1 := ⟨k - 1, by omega⟩
  rcases eq_zero_or_pos k with rfl | hpos'
  · exact hfirst
  · exact h k hpos' (Nat.le_of_succ_le_succ hle)

theorem Clear.concat {components : List (List Char)} (h : Clear rules host root components)
    (hlast : host.symlinkMetadata (push rules (joined rules root components) name) ≠ .ok .symlink) :
    Clear rules host root (components ++ [name]) := by
  intro k hpos hle
  rcases lt_or_ge components.length k with hlong | hshort
  · rw [take_of_length_le (by simp; omega), joined_append]
    exact hlast
  · rw [take_append_of_le_length hshort]
    exact h k hpos hshort

/-- The walk ends at the path of the components that are not empty. -/
theorem walk_ok {names : List (List Char)} (h : walk rules host root names = .ok resolved) :
    resolved = joined rules root (names.filter fun component => !component.isEmpty) ∧
      Clear rules host root (names.filter fun component => !component.isEmpty) := by
  induction names generalizing root with
  | nil =>
    cases h
    exact ⟨rfl, fun k hpos hle => absurd hle (not_le.2 hpos)⟩
  | cons component names ih =>
    unfold walk at h
    split at h
    · rename_i hempty
      rw [filter_cons_of_neg (by simpa using hempty)]
      exact ih h
    · rename_i hnonempty
      rw [filter_cons_of_pos (by simpa using hnonempty)]
      cases hanswer : host.symlinkMetadata (push rules root component) with
      | error =>
        rw [hanswer] at h
        cases h
      | ok kind =>
        rw [hanswer] at h
        by_cases hlink : kind = .symlink
        · subst hlink
          cases h
        · have hnext : walk rules host (push rules root component) names = .ok resolved := by
            cases kind with
            | symlink => exact absurd rfl hlink
            | file | directory | other => exact h
          obtain ⟨hresolved, hclear⟩ := ih hnext
          refine ⟨hresolved, .cons (fun hsymlink => hlink ?_) hclear⟩
          exact Except.ok.inj (hanswer.symm.trans hsymlink)

variable {root : Option (List Char)}

theorem resolveExisting_ok (h : resolveExisting rules host root path = .ok resolved) :
    ∃ r, root = some r ∧ resolved = joined rules r (named path) ∧
      Clear rules host r (named path) := by
  cases root with
  | none => cases h
  | some r =>
    obtain ⟨hresolved, hclear⟩ := walk_ok h
    rw [← named, named_dropWhile] at hresolved hclear
    exact ⟨r, rfl, hresolved, hclear⟩

/-- A text without a separator has no parent. -/
theorem rsplitOnce_none (h : rsplitOnce text = none) : '/' ∉ text := by
  induction text with
  | nil => exact not_mem_nil
  | cons c text ih =>
    unfold rsplitOnce at h
    cases hrest : rsplitOnce text with
    | some =>
      rw [hrest] at h
      cases h
    | none =>
      rw [hrest] at h
      simp only at h
      split at h
      · cases h
      · rename_i hc
        intro hmem
        rcases mem_cons.1 hmem with hslash | hmem
        · exact hc hslash.symm
        · exact ih hrest hmem

theorem rsplitOnce_some (h : rsplitOnce text = some (parent, name)) :
    text = parent ++ '/' :: name ∧ '/' ∉ name := by
  induction text generalizing parent with
  | nil => cases h
  | cons c text ih =>
    unfold rsplitOnce at h
    cases hrest : rsplitOnce text with
    | some =>
      rw [hrest] at h
      cases h
      obtain ⟨htext, hname⟩ := ih hrest
      exact ⟨by rw [htext]; rfl, hname⟩
    | none =>
      rw [hrest] at h
      simp only at h
      split at h
      · rename_i hc
        cases h
        exact ⟨by rw [hc]; rfl, rsplitOnce_none hrest⟩
      · cases h

theorem resolveNew_ok (h : resolveNew rules host root path = .ok resolved) :
    ∃ r, root = some r ∧ resolved = joined rules r (named path) ∧
      Clear rules host r (named path) := by
  unfold resolveNew at h
  cases hsplit : rsplitOnce path with
  | none =>
    rw [hsplit] at h
    cases h
  | some found =>
    obtain ⟨parent, name⟩ := found
    rw [hsplit] at h
    simp only at h
    split at h
    · cases h
    rename_i hne
    obtain ⟨rfl, hname⟩ := rsplitOnce_some hsplit
    obtain ⟨directory, hdirectory, h⟩ := except_bind_eq_ok.1 h
    obtain ⟨r, hroot, hresolved, hclear⟩ := resolveExisting_ok hdirectory
    have hparent : named (if parent.isEmpty then ['/'] else parent) = named parent := by
      cases parent with
      | nil | cons => rfl
    rw [hparent] at hresolved hclear
    rw [named_append hname (by simpa using hne)]
    -- the name is pushed last, onto a path on which nothing exists
    have hpushed : resolved = push rules directory name ∧
        host.symlinkMetadata (push rules directory name) ≠ .ok .symlink := by
      cases hanswer : host.symlinkMetadata (push rules directory name) with
      | ok =>
        rw [hanswer] at h
        cases h
      | error =>
        rw [hanswer] at h
        simp only at h
        split at h
        · cases h
          exact ⟨rfl, fun hlink => nomatch hlink⟩
        · cases h
    refine ⟨r, hroot, ?_, hclear.concat (hresolved ▸ hpushed.2)⟩
    rw [hpushed.1, hresolved, joined_append]
    rfl

/-! ### What the service touches -/

/-- The call touches only paths with `P`. -/
def Touches (P : List Char → Prop) {α : Type} (c : ServiceCall α) : Prop :=
  ∀ s, c.Ensures s (fun _ t => ∀ act ∈ t.acts, act ∈ s.acts ∨ P act.2)
    fun _ t => ∀ act ∈ t.acts, act ∈ s.acts ∨ P act.2

section Touches

variable {P : List Char → Prop} {α β : Type} {f : α → ServiceCall β} {c : ServiceCall α}

theorem Touches.bind (hc : Touches P c) (hf : ∀ a, Touches P (f a)) : Touches P (c >>= f) := by
  intro s
  refine .seq (hc s) fun a t ht => ?_
  have hboth : ∀ u : State, (∀ act ∈ u.acts, act ∈ t.acts ∨ P act.2) →
      ∀ act ∈ u.acts, act ∈ s.acts ∨ P act.2 :=
    fun u hu act hact => (hu act hact).elim (ht act) .inr
  exact (hf a t).imp (fun _ => hboth) fun _ => hboth

theorem Touches.of_same
    (h : ∀ s, c.Ensures s (fun _ t => t.acts = s.acts) fun _ t => t.acts = s.acts) :
    Touches P c := by
  intro s
  refine (h s).imp (fun _ t ht act hact => .inl ?_) fun _ t ht act hact => .inl ?_
  · rwa [ht] at hact
  · rwa [ht] at hact

theorem Touches.pure (a : α) : Touches P (Pure.pure a : ServiceCall α) := .of_same fun _ => rfl

theorem Touches.fail {e : IpcResultCode} : Touches P (fail e : ServiceCall α) :=
  .of_same fun _ => rfl

theorem Touches.failIf {b : Bool} {e : IpcResultCode} :
    Touches P (failIf b e : ServiceCall Unit) := by
  refine .of_same fun s => ?_
  cases b <;> rfl

theorem Touches.read : Touches P (read : ServiceCall State) := .of_same fun _ => rfl

theorem Touches.answer {result : Except IoError α} : Touches P (answer result) := by
  cases result with
  | ok a => exact .pure a
  | error => exact .fail

/-- The answer of the host, with what it tells. -/
theorem Touches.answer_bind {result : Except IoError α}
    (hf : ∀ a, result = .ok a → Touches P (f a)) :
    Touches P (HostFilesystem.answer result >>= f) := by
  cases result with
  | ok a => exact hf a rfl
  | error => exact .fail

theorem Touches.withVolume (change : SaveVolume → SaveVolume) : Touches P (withVolume change) :=
  .of_same fun _ => rfl

theorem Touches.touch {operation : HostOperation} (h : P path) :
    Touches P (touch operation path) := by
  intro s act hact
  rcases mem_cons.1 hact with rfl | hact
  · exact .inr h
  · exact .inl hact

theorem Touches.perform {operation : HostOperation} (h : P path) :
    Touches P (perform host operation path) := (Touches.touch h).bind fun _ => .answer

theorem Touches.metadata (h : P path) : Touches P (metadata host path) :=
  (Touches.touch h).bind fun _ => .answer

theorem Touches.tryLock : Touches P (tryLock host path) := by
  unfold HostFilesystem.tryLock
  split
  · exact .pure ()
  · exact .fail

theorem Touches.insertHandle (object : Opened) : Touches P (insertHandle host object) := by
  unfold HostFilesystem.insertHandle
  split
  · exact .pure _
  · exact .fail

/-- A request goes on with the path it came with. -/
theorem Touches.normalized {f : List Char → ServiceCall β}
    (hf : Accepted path → Touches P (f path)) :
    Touches P (normalized path >>= f) := by
  unfold HostFilesystem.normalized
  cases hpath : normalizeHostPath path with
  | error => exact .of_same fun _ => rfl
  | ok =>
    obtain ⟨rfl, -⟩ := normalizeHostPath_ok hpath
    exact hf hpath

end Touches

/-- The host path is the root followed by the components of a path that passed the checks, with no
link on the way. -/
def Confined (rules : Rules) (host : Host) (root : Option (List Char)) (path hostPath : List Char) :
    Prop :=
  ∃ r, root = some r ∧ Accepted path ∧ hostPath = joined rules r (components path) ∧
    Clear rules host r (components path)

section Requests

variable {mounts : Mounts} {root : Option (List Char)} {hostPath : List Char} {mode : ℕ}
  {P : List Char → Prop}

/-- A request asks for the kind of the entry that its path resolves to, and goes on. -/
theorem Touches.existing {α : Type} {f : List Char → FileType × ℕ → ServiceCall α}
    (haccepted : Accepted path)
    (hf : ∀ hostPath, Confined rules host root path hostPath → ∀ found,
      Touches (Confined rules host root path) (f hostPath found)) :
    Touches (Confined rules host root path)
      (HostFilesystem.answer (resolveExisting rules host root path) >>= fun hostPath =>
        HostFilesystem.metadata host hostPath >>= f hostPath) := by
  refine .answer_bind fun hostPath hresolved => ?_
  obtain ⟨r, hroot, hpath, hclear⟩ := resolveExisting_ok hresolved
  rw [← components_eq_named haccepted] at hpath hclear
  have hconfined : Confined rules host root path hostPath := ⟨r, hroot, haccepted, hpath, hclear⟩
  exact (Touches.metadata hconfined).bind (hf hostPath hconfined)

theorem confined_new (haccepted : Accepted path)
    (h : resolveNew rules host root path = .ok hostPath) :
    Confined rules host root path hostPath := by
  obtain ⟨r, hroot, hresolved, hclear⟩ := resolveNew_ok h
  rw [← components_eq_named haccepted] at hresolved hclear
  exact ⟨r, hroot, haccepted, hresolved, hclear⟩

theorem deleteFile_touches :
    Touches (Confined rules host root path) (deleteFile rules host mounts root path) := by
  refine .normalized fun haccepted => Touches.failIf.bind fun _ => ?_
  refine .existing haccepted fun hostPath hconfined found => Touches.failIf.bind fun _ => ?_
  refine (Touches.perform hconfined).bind fun _ => Touches.tryLock.bind fun _ => ?_
  exact (Touches.perform hconfined).bind fun _ => (Touches.withVolume _).bind fun _ => .pure _

theorem getEntryType_touches :
    Touches (Confined rules host root path) (getEntryType rules host mounts root path) := by
  refine .normalized fun haccepted => Touches.read.bind fun s => ?_
  have hkind : Touches (Confined rules host root path)
      (getEntryType.kindOf rules host root path) := by
    refine .existing haccepted fun hostPath hconfined found => ?_
    cases found.1 with
    | directory | file => exact .pure _
    | symlink | other => exact .fail
  split
  · split
    · exact .pure _
    · split
      · exact .pure _
      · exact hkind
  · exact hkind

theorem createFile_touches {size option : ℕ} : Touches (Confined rules host root path)
      (createFile rules host mounts root path size option) := by
  refine Touches.failIf.bind fun _ => .normalized fun haccepted => ?_
  refine Touches.failIf.bind fun _ => .answer_bind fun hostPath hresolved => ?_
  have hconfined := confined_new haccepted hresolved
  refine Touches.read.bind fun s => Touches.failIf.bind fun _ => ?_
  refine (Touches.perform hconfined).bind fun _ => ?_
  split
  · exact (Touches.touch hconfined).bind fun _ => .fail
  · exact (Touches.withVolume _).bind fun _ => .pure _

theorem createDirectory_touches :
    Touches (Confined rules host root path) (createDirectory rules host mounts root path) := by
  refine .normalized fun haccepted => Touches.failIf.bind fun _ => ?_
  refine .answer_bind fun hostPath hresolved => ?_
  refine (Touches.perform (confined_new haccepted hresolved)).bind fun _ => ?_
  exact (Touches.withVolume _).bind fun _ => .pure _

theorem openHostFile_touches (haccepted : Accepted path) :
    Touches (Confined rules host root path) (openHostFile rules host root path mode) := by
  refine .existing haccepted fun hostPath hconfined found => Touches.failIf.bind fun _ => ?_
  refine (Touches.perform hconfined).bind fun _ => Touches.tryLock.bind fun _ => ?_
  refine (Touches.insertHandle _).bind fun response => ?_
  split
  · exact (Touches.withVolume _).bind fun _ => .pure _
  · exact (Touches.pure ()).bind fun _ => .pure _

theorem openFile_touches :
    Touches (Confined rules host root path) (openFile rules host mounts root path mode) := by
  refine Touches.failIf.bind fun _ => .normalized fun haccepted => ?_
  split
  · exact openHostFile_touches haccepted
  · split
    · exact Touches.failIf.bind fun _ => .insertHandle _
    · split
      · exact .fail
      · split
        · exact .fail
        · exact openHostFile_touches haccepted

/-- The loop over the entries asks the host nothing about paths. -/
theorem collectHostEntries_touches :
    ∀ (found : List (Except IoError DirEntry)) (entries : Entries),
      Touches P (collectHostEntries mode found entries) := by
  intro found
  induction found with
  | nil =>
    intro entries
    unfold collectHostEntries
    exact .pure _
  | cons entry found ih =>
    intro entries
    have hadd : ∀ entries, Touches P (collectHostEntries.add mode found entries) := by
      intro entries
      unfold collectHostEntries.add
      split
      · exact .fail
      · exact ih entries
    unfold collectHostEntries
    refine Touches.answer.bind fun entry => Touches.answer.bind fun fileType => ?_
    split
    · exact ih entries
    · refine .bind (.of_same fun s => ?_) fun name => ?_
      · cases entry.fileName <;> rfl
      split
      · exact ih entries
      · split
        · exact hadd _
        · split
          · refine .bind ?_ fun size => hadd _
            unfold collectHostEntries.sizeOf
            split
            · exact .pure 0
            · exact .answer
          · exact ih entries

theorem collectDirectoryEntries_touches {entries : Entries} :
    Touches P (collectDirectoryEntries entries) := Touches.failIf.bind fun _ => .pure _

theorem outerDirectoryEntries_touches (haccepted : Accepted path) :
    Touches (Confined rules host root path)
      (outerDirectoryEntries rules host mounts root path mode) := by
  have hlist : Touches (Confined rules host root path)
      (listHostDirectory rules host root path mode) := by
    unfold listHostDirectory
    split
    · exact .pure _
    · refine .existing haccepted fun hostPath hconfined found => Touches.failIf.bind fun _ => ?_
      exact (Touches.perform hconfined).bind fun _ => collectHostEntries_touches _ _
  refine hlist.bind fun entries => ?_
  split
  · exact Touches.failIf.bind fun _ => collectDirectoryEntries_touches
  · exact Touches.failIf.bind fun _ => collectDirectoryEntries_touches

theorem openDirectory_touches :
    Touches (Confined rules host root path) (openDirectory rules host mounts root path mode) := by
  refine Touches.failIf.bind fun _ => .normalized fun haccepted => ?_
  refine .bind ?_ fun entries => .insertHandle _
  unfold hostDirectoryEntries
  split
  · split
    · exact .fail
    · split
      · exact Touches.failIf.bind fun _ => collectDirectoryEntries_touches
      · exact outerDirectoryEntries_touches haccepted
  · exact outerDirectoryEntries_touches haccepted

theorem commitFileSystem_touches : Touches P (commitFileSystem host) := by
  refine Touches.read.bind fun s => ?_
  split
  · exact .pure _
  · refine Touches.failIf.bind fun _ => Touches.answer.bind fun _ => ?_
    exact (Touches.withVolume _).bind fun _ => .pure _

theorem dispatchHostFilesystem_touches {request : IpcRequest} :
    Touches (fun hostPath => ∃ path, request.path = some path ∧
      Confined rules host root path hostPath)
      (dispatchHostFilesystem rules host mounts root request) := by
  refine Touches.read.bind fun s => Touches.failIf.bind fun _ => ?_
  have himp : ∀ {path : List Char} {c : ServiceCall IpcResponse}, request.path = some path →
      Touches (Confined rules host root path) c →
      Touches (fun hostPath => ∃ path, request.path = some path ∧
        Confined rules host root path hostPath) c := by
    intro path c hpath hc s
    have hwiden : ∀ t : State, (∀ act ∈ t.acts, act ∈ s.acts ∨
        Confined rules host root path act.2) → ∀ act ∈ t.acts, act ∈ s.acts ∨
        ∃ path, request.path = some path ∧ Confined rules host root path act.2 :=
      fun t ht act hact => (ht act hact).imp_right fun h => ⟨path, hpath, h⟩
    exact (hc s).imp (fun _ => hwiden) fun _ => hwiden
  cases request with
  | getFileSystemAttribute => exact .pure _
  | deleteFile => exact himp rfl deleteFile_touches
  | getEntryType => exact himp rfl getEntryType_touches
  | createFile => exact himp rfl createFile_touches
  | createDirectory => exact himp rfl createDirectory_touches
  | openFile => exact himp rfl openFile_touches
  | openDirectory => exact himp rfl openDirectory_touches
  | commitFileSystem => exact commitFileSystem_touches
  | other => exact .fail

end Requests

/-! ### Confinement -/

/-- The host takes every component of the path for one name. -/
def OneName (rules : Rules) (path : List Char) : Prop :=
  rules = .unix ∨ ∀ component ∈ components path, '\\' ∉ component ∧
    Rules.driveLength .windows component = 0

theorem plain_iff_oneName (haccepted : Accepted path) :
    (∀ component ∈ components path, Plain rules component) ↔ OneName rules path := by
  obtain ⟨-, -, hnames⟩ := normalizeHostPath_ok haccepted
  cases rules with
  | unix =>
    refine ⟨fun _ => .inl rfl, fun _ component hmem => ?_⟩
    obtain ⟨hne, hdot, -, hslash⟩ := hnames component hmem
    exact plain_unix hne hdot hslash
  | windows =>
    constructor
    · refine fun h => .inr fun component hmem => ⟨fun hback => ?_, (h component hmem).drive⟩
      cases (h component hmem).separators _ hback
    · rintro (hunix | h) component hmem
      · cases hunix
      · obtain ⟨hne, hdot, -, hslash⟩ := hnames component hmem
        obtain ⟨hback, hdrive⟩ := h component hmem
        refine ⟨hne, hdot, fun c hc => Bool.eq_false_iff.2 fun hseparator => ?_, hdrive⟩
        simp only [Rules.isSeparator, Bool.or_eq_true, beq_iff_eq] at hseparator
        rcases hseparator with rfl | rfl
        · exact hslash hc
        · exact hback hc

/-- **Guest paths stay inside their root.**  Every path that a request touches is made of the root
and the components of the path in the request, which passed the checks, and no component on the way
is a link.  The host reads it as the root followed by exactly these components if and only if it
takes each of them for one name, which is always so where only `/` separates names; and then
different components make different paths. -/
theorem host_paths_confined (rules : Rules) (host : Host) (mounts : Mounts)
    (root : Option (List Char)) (request : IpcRequest) (save : Option SaveVolume) :
    (∀ act ∈ (dispatchHostFilesystem rules host mounts root request ⟨save, []⟩).2.acts,
      ∃ r path, root = some r ∧ request.path = some path ∧ Accepted path ∧
        act.2 = joined rules r (components path) ∧
        (∀ k, 0 < k → k ≤ (components path).length → host.symlinkMetadata
          (joined rules r ((components path).take k)) ≠ .ok .symlink) ∧
        (parse rules act.2 = (parse rules r).extend (components path) ↔ OneName rules path)) ∧
    ∀ r path path', Accepted path → Accepted path' → OneName rules path → OneName rules path' →
      components path ≠ components path' →
      parse rules (joined rules r (components path)) ≠
        parse rules (joined rules r (components path')) := by
  refine ⟨fun act hact => ?_, fun r path path' haccepted haccepted' hone hone' hne heq => ?_⟩
  · have hall : ∀ act ∈ (dispatchHostFilesystem rules host mounts root request ⟨save, []⟩).2.acts,
        act ∈ ([] : List (HostOperation × List Char)) ∨
          ∃ path, request.path = some path ∧ Confined rules host root path act.2 :=
      (dispatchHostFilesystem_touches ⟨save, []⟩).state (fun _ _ h => h) fun _ _ h => h
    obtain ⟨path, hpath, r, hroot, haccepted, heq, hclear⟩ :=
      (hall act hact).resolve_left not_mem_nil
    refine ⟨r, path, hroot, hpath, haccepted, heq, hclear, ?_⟩
    rw [heq, parse_joined_iff fun component hmem => ?_, plain_iff_oneName haccepted]
    obtain ⟨-, -, hnames⟩ := normalizeHostPath_ok haccepted
    exact ⟨(hnames component hmem).1, (hnames component hmem).2.1⟩
  · exact hne (joined_injective ((plain_iff_oneName haccepted).2 hone)
      ((plain_iff_oneName haccepted').2 hone') heq)

/-- A host on which every path is a file. -/
def obliging : Host where
  symlinkMetadata _ := .ok .file
  metadata _ := .ok (.file, 0)
  perform _ _ := .ok ()
  setLen _ _ := .ok ()
  lock _ := .ok ()
  readDir _ := []
  insertHandle := true
  commit := .ok ()

/-- **A backslash escapes** where it separates names: the guest removes a file beside the root. -/
theorem backslash_escapes :
    (dispatchHostFilesystem .windows obliging ⟨true, none⟩ (some ['C', ':', '\\', 's', 'd'])
      (.deleteFile ['/', '.', '.', '\\', 'x']) ⟨none, []⟩).2.acts.head? =
        some (.remove, ['C', ':', '\\', 's', 'd', '\\', '.', '.', '\\', 'x']) ∧
      parse .windows ['C', ':', '\\', 's', 'd', '\\', '.', '.', '\\', 'x'] =
        ⟨['C', ':'], true, [['s', 'd'], ['.', '.'], ['x']]⟩ := by
  decide

end Nixe.HostFilesystem
