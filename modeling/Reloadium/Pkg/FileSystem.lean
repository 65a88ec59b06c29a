import Reloadium.Lib.FileTree
import Reloadium.Lib.Utf8
import Reloadium.Pkg.Wheel

namespace Reloadium.Pkg

open Reloadium.Lib

/-!
# Pkg — the two file systems

Model of `rw.pkg.FileSystem`, its native and its remote subclass, over a world of two
machines: the one the plugin runs on, which `java.io.File` always means, and the remote
one.

Over SFTP a write at offset 0 of a file opened `WRITE|CREAT` replaces the bytes written and
keeps the rest; a read returns the bytes it asks for.
-/

/-- The components of an absolute path. -/
abbrev Path := List Text

/-- The files of one machine. -/
abbrev Files := Tree Text Bytes

/-- The files of the machine the plugin runs on, and of the remote one. -/
structure World where
  localFiles : Files
  remoteFiles : Files

/-- The subclasses of `FileSystem`. -/
inductive FileSystem where
  | native (home : Path)
  | remote

namespace FileSystem

/-- The files that the file system's own operations act on. -/
def files : FileSystem → World → Files
  | native _, w => w.localFiles
  | remote, w => w.remoteFiles

def getHome : FileSystem → Path
  | native home => home
  | remote => ["root".toList]

end FileSystem

/-- `getPackagesRootDir`, under a home directory. -/
def getPackagesRootDir (home : Path) : Path :=
  home ++ [".reloadium".toList, "package_local".toList]

/-- `packageVersionDir` of `BaseWheel.unpack`, for a destination directory name. -/
def packageVersionDir (home : Path) (dstDirName : Text) : Path :=
  getPackagesRootDir home ++ [dstDirName]

/-- `launcherFile`. -/
def launcherFile (home : Path) : Path :=
  getPackagesRootDir home ++ ["reloadium_launcher.py".toList]

/-- `currentVersionFile`. -/
def currentVersionFile (home : Path) : Path := getPackagesRootDir home ++ ["version.txt".toList]

/-! ### Strings in files -/

/-- What an operation throws: an `IOException`, or anything else. -/
inductive Exc where
  | io
  | runtime
  deriving DecidableEq

/-- `Files.readString`: malformed input is an `IOException`. -/
def nativeRead (content : Bytes) : Except Exc JString :=
  let s := Utf8.decode content
  -- the decoder reports an error where decoding and encoding would replace a byte
  if Utf8.encode s = content then .ok s else .error .io

/-- The cast of a `long` size to `int`. -/
def castSize (size : Nat) : Int := Int.bmod size 0x100000000

/-- `RemoteFileSystem.readString`: `new byte[fileSize]` throws for a negative size. -/
def remoteRead (content : Bytes) : Except Exc JString :=
  let fileSize := castSize content.length
  -- `new String` replaces what is malformed
  if fileSize < 0 then .error .runtime else .ok (Utf8.decode (content.take fileSize.toNat))

/-- A remote file after `bytes` have been written at offset 0. -/
def overwrite (old bytes : Bytes) : Bytes := bytes ++ old.drop bytes.length

/-- The content of the file at a path (empty: there is none). -/
def contentAt (files : Files) (path : Path) : Bytes :=
  match files path with
  | some (.file content) => content
  | _ => []

/-- `readString`. -/
def FileSystem.readString (fs : FileSystem) (w : World) (path : Path) : Except Exc JString :=
  match fs.files w path with
  | some (.file content) =>
    match fs with
    | native _ => nativeRead content
    | remote => remoteRead content
  | _ => .error .io

end Reloadium.Pkg
