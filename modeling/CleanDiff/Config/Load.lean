import CleanDiff.Config.Basic
import CleanDiff.Disk.Basic

/-!
# Loading a configuration

The settings of a repository lie in a file at the root of its working tree, and a
repository without that file has the default settings. A file that is named has
to be there.
-/

namespace CleanDiff.Config

/-- The settings in a file. The file is read as text before its format is looked
at. -/
def readFrom (d : Disk) (path : Path) : Except FileError Config := do
  ofContent path (← d.readText path)

/-- The settings of the working tree at a root. -/
def ofWorkTree (d : Disk) (root : Path) : Except FileError Config :=
  let path := root.join fileName
  if d.isFile path then readFrom d path else .ok {}

end CleanDiff.Config
