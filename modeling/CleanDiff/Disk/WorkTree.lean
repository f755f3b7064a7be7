import CleanDiff.Disk.AtomicWrite
import CleanDiff.Disk.Walk
import CleanDiff.WorkTree.Basic

/-!
# A disk as a working tree

Files are read as they are, and written all at once.
-/

namespace CleanDiff

instance : WorkTree Disk where
  isSymlink := Disk.isSymlink
  isFile := Disk.isFile
  isDir := Disk.isDir
  read := Disk.readBytes
  write d path content := d.writeFile path (Utf8.encode content)
  list := Disk.filesBelow

end CleanDiff
