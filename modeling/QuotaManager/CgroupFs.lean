import QuotaManager.Logic.Paths
import QuotaManager.Logic.Text
import QuotaManager.Controller

/-! The pod directories of the cgroup file system: where the resolver of `cgroup.go`
looks for them, and how the scan of `syncer.go` finds and reads them. -/

namespace QuotaManager
open Paths

def cgroupFsRoot : String := "/sys/fs/cgroup"

/-- `strings.ReplaceAll` for single letters. -/
def replaceAll (old new : Char) (text : String) : String :=
  String.ofList (text.toList.map fun char => if char = old then new else char)

/-- What `os.ReadDir` returns for a directory: its entries, and below each directory the
same again. A listing that fails has the entries before the failure. Without an inode
`os.Stat` fails. -/
inductive Listing where
  | done
  | failed
  | file (name : Name) (rest : Listing)
  | directory (name : Name) (inode : Option UInt64) (content rest : Listing)

namespace Listing

def complete : Listing → Bool
  | .done => true
  | .failed => false
  | .file _ rest | .directory _ _ _ rest => rest.complete

/-- `readCgroupID` for each child that is a directory; those that fail are left out. -/
def children (podPath : String) : Listing → List CgroupInfo
  | .done | .failed => []
  | .file _ rest => rest.children podPath
  | .directory name inode _ rest =>
    match inode with
    | none => rest.children podPath
    | some inode => ⟨inode, join [podPath, name.text]⟩ :: rest.children podPath

def inodes : Listing → List UInt64
  | .done | .failed => []
  | .file _ rest => rest.inodes
  | .directory _ inode content rest => inode.toList ++ (content.inodes ++ rest.inodes)

end Listing

/-- A directory with what `os.Stat` and `os.ReadDir` find at its path. -/
structure Directory where
  path : String
  inode : Option UInt64
  content : Listing

namespace Directory

/-- `readCgroupID`. -/
def info (directory : Directory) : Option CgroupInfo := directory.inode.map fun inode => ⟨inode, directory.path⟩

def childInfos (directory : Directory) : List CgroupInfo := directory.content.children directory.path

end Directory

def Listing.find (path root : String) : Listing → Option Directory
  | .done | .failed => none
  | .file _ rest => rest.find path root
  | .directory name inode content rest =>
    let here := join [root, name.text]
    if here = path then some ⟨here, inode, content⟩ else content.find path here <|> rest.find path root

/-- The root of all pods. -/
def kubepods : String := join [cgroupFsRoot, "kubepods.slice"]

def candidates (podUID : String) : List String :=
  let cgUID := replaceAll '-' '_' podUID
  [join [cgroupFsRoot, "kubepods.slice", "kubepods-pod" ++ cgUID ++ ".slice"],
    join [cgroupFsRoot, "kubepods.slice", "pod" ++ cgUID]] ++
  ["besteffort", "burstable", "guaranteed"].flatMap fun qos =>
    [join [cgroupFsRoot, "kubepods.slice", "kubepods-" ++ qos ++ ".slice", "kubepods-" ++ qos ++ "-pod" ++ cgUID ++ ".slice"],
      join [cgroupFsRoot, "kubepods.slice", "kubepods-" ++ qos ++ ".slice", "pod" ++ cgUID]]

/-- `PodResolver.Resolve`: the first candidate that is there, after its children. -/
def podResolve (tree : Listing) (podUID : String) : Option (List CgroupInfo) :=
  (candidates podUID).findSome? fun podPath => do
    let directory ← tree.find podPath kubepods
    let info ← directory.info
    return directory.childInfos ++ [info]

def podIDFromCgroupPath (path : String) : Option String :=
  match Text.splitFirst "-pod".toList (base path).toList with
  | none => none
  | some (_, rest) => some (String.ofList (Text.trimSuffix ".slice".toList rest))

/-- The loop of `findPodCgroupDirs` over the entries below a path. -/
def Listing.podCgroupDirs (root : String) : Listing → List Directory
  | .done | .failed => []
  | .file _ rest => rest.podCgroupDirs root
  | .directory name inode content rest =>
    let path := join [root, name.text]
    let found :=
      if (podIDFromCgroupPath name.text).isSome then [⟨path, inode, content⟩]
      else if content.complete then content.podCgroupDirs path
      else []
    found ++ rest.podCgroupDirs root

def Listing.podDirs (root : String) (tree : Listing) : List Directory :=
  if tree.complete then tree.podCgroupDirs root else []

/-- The source returns the paths only, and reads the directories later. -/
def findPodCgroupDirs (root : String) (tree : Listing) : List String := (tree.podDirs root).map (·.path)

/-- No two directories of the cgroup file system have the same inode. -/
structure Hierarchy where
  tree : Listing
  distinct : tree.inodes.Nodup

/-- The names in a directory. -/
def Listing.names : Listing → List Name
  | .done | .failed => []
  | .file name rest | .directory name _ _ rest => name :: rest.names

/-- No directory has two entries of one name. -/
def Listing.distinct : Listing → Bool
  | .done | .failed => true
  | .file name rest => name ∉ rest.names ∧ rest.distinct
  | .directory name _ content rest => name ∉ rest.names ∧ content.distinct ∧ rest.distinct

/-- What is below some directory of a file system. -/
structure DirectoryTree where
  content : Listing
  distinct : content.distinct

/-- What a scan reads of a pod directory. -/
def Directory.read (directory : Directory) : PodDirectory :=
  ⟨directory.info, podIDFromCgroupPath directory.path, directory.childInfos⟩

/-- The pod directories of a scan, while nothing changes there. -/
def Hierarchy.podDirectories (hierarchy : Hierarchy) : List PodDirectory :=
  (hierarchy.tree.podDirs kubepods).map Directory.read

end QuotaManager
