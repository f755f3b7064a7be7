import CleanDiff.Json.Printer
import CleanDiff.Json.Reader
import CleanDiff.Repository.Sha1
import CleanDiff.Text.Utf8

/-!
# Stored objects

A repository is a store of objects, each under the digest of its bytes: *blobs*
hold file contents, *trees* list directories, *commits* name a tree and their
parents and say in a message what they are about, *tags* name another object. The
bytes of an object are its kind, its size and its body; this module writes and
reads them.
-/

namespace CleanDiff

/-- The name of an object: the digest of its bytes. -/
abbrev ObjectId := Bytes

namespace ObjectId

/-- The name in hexadecimal digits. -/
def toHex (id : ObjectId) : Text :=
  id.flatMap fun b => [Json.hexDigit (b.toNat / 16), Json.hexDigit (b.toNat % 16)]

/-- Bytes from hexadecimal digits. -/
def bytesOfHex? : Text → Option Bytes
  | [] => some []
  | a :: b :: rest => do
      let high ← Json.hexValue? a
      let low ← Json.hexValue? b
      return UInt8.ofNat (16 * high + low) :: (← bytesOfHex? rest)
  | [_] => none

/-- The name that forty hexadecimal digits write. -/
def ofHex? (t : Text) : Option ObjectId := if t.length = 40 then bytesOfHex? t else none

end ObjectId

/-- What an entry of a tree names. -/
inductive EntryKind
  | blob
  | tree
  /-- A commit of another repository. -/
  | submodule
  deriving DecidableEq, Repr

/-- An entry of a tree. The mode says what the entry is, in octal digits. -/
structure TreeEntry where
  mode : Text
  name : Bytes
  id : ObjectId
  deriving DecidableEq, Repr

namespace TreeEntry

def fileMode : Text := "100644".toList
def programMode : Text := "100755".toList
def linkMode : Text := "120000".toList
def treeMode : Text := "40000".toList
def submoduleMode : Text := "160000".toList

def kind (e : TreeEntry) : EntryKind :=
  if e.mode = treeMode then .tree else if e.mode = submoduleMode then .submodule else .blob

/-- Entries are ordered by name, a tree as if its name ended in a slash. -/
def sortKey (e : TreeEntry) : Bytes := if e.kind = .tree then e.name ++ [0x2F] else e.name

end TreeEntry

/-- An object of the store. -/
inductive StoredObject
  | blob (content : Bytes)
  | tree (entries : List TreeEntry)
  | commit (tree : ObjectId) (parents : List ObjectId) (message : Bytes)
  | tag (target : ObjectId)
  deriving DecidableEq, Repr

namespace StoredObject

/-! ### Writing -/

/-- The bytes of a plain string. -/
def ascii (s : String) : Bytes := Utf8.encode s.toList

/-- A name in hexadecimal digits, as bytes. -/
def hexBytes (id : ObjectId) : Bytes := Utf8.encode id.toHex

/-- Whoever makes a change, and when. -/
def signatureAt (time : Int) : Bytes :=
  ascii ("Nobody <nobody@localhost> " ++ toString time ++ " +0000")

/-- The present time, at which all commits are made, in seconds since the beginning of
1970. -/
def present : Int := 1769603696

/-- Whoever makes a commit, and when. -/
def signature : Bytes := signatureAt present

/-- The body of an object. -/
def body : StoredObject → Bytes
  | .blob content => content
  | .tree entries =>
      entries.flatMap fun e => Utf8.encode e.mode ++ 0x20 :: (e.name ++ 0 :: e.id)
  | .commit listing parents message =>
      ascii "tree " ++ hexBytes listing ++
        (parents.flatMap fun p => ascii "\nparent " ++ hexBytes p) ++
        ascii "\nauthor " ++ signature ++ ascii "\ncommitter " ++ signature ++
        ascii "\n\n" ++ message
  | .tag target => ascii "object " ++ hexBytes target ++ ascii "\n"

/-- The kind of an object, as it is written. -/
def kindName : StoredObject → String
  | .blob _ => "blob"
  | .tree _ => "tree"
  | .commit _ _ _ => "commit"
  | .tag _ => "tag"

/-- The bytes of an object: kind, size and body. -/
def encode (o : StoredObject) : Bytes :=
  ascii (o.kindName ++ " " ++ toString o.body.length) ++ 0 :: o.body

/-- The name of an object. -/
def id (o : StoredObject) : ObjectId := Sha1.digest o.encode

/-! ### Reading -/

/-- Cut a byte string behind the first byte of some value; none if there is none. -/
def cutAt? (mark : UInt8) (bytes : Bytes) : Option (Bytes × Bytes) :=
  match bytes.dropWhile (· ≠ mark) with
  | [] => none
  | _ :: rest => some (bytes.takeWhile (· ≠ mark), rest)

/-- The entries of a tree, `fuel` of them at most. -/
def readEntries? : Nat → Bytes → Option (List TreeEntry)
  | _, [] => some []
  | 0, _ => none
  | fuel + 1, bytes => do
      let (mode, rest) ← cutAt? 0x20 bytes
      let (name, rest) ← cutAt? 0 rest
      if rest.length < 20 then none
      else
        return ⟨Utf8.decodeLossy mode, name, rest.take 20⟩ :: (← readEntries? fuel (rest.drop 20))

/-- The value of a header line that begins with a word. -/
def headerId? (word : String) (line : Bytes) : Option ObjectId := do
  let value ← Text.after? word.toList (Utf8.decodeLossy line)
  ObjectId.ofHex? value

/-- The message of a commit: what stands behind its header lines and an empty
one. -/
def messageOf (lines : List Bytes) : Bytes :=
  let below := (lines.dropWhile (· ≠ [])).dropWhile (· = [])
  [0x0A].intercalate below

/-- Read a commit. -/
def readCommit? (bytes : Bytes) : Option StoredObject := do
  match bytes.splitOn 0x0A with
  | first :: rest =>
      let listing ← headerId? "tree " first
      let parents := rest.map (headerId? "parent ") |>.takeWhile Option.isSome
      return .commit listing (parents.filterMap fun p => p) (messageOf rest)
  | [] => none

/-- Read an object. -/
def decode? (bytes : Bytes) : Option StoredObject := do
  let (head, content) ← cutAt? 0 bytes
  let (kind, size) ← cutAt? 0x20 head
  if Utf8.decodeLossy size ≠ (toString content.length).toList then none
  else
    match String.ofList (Utf8.decodeLossy kind) with
    | "blob" => return .blob content
    | "tree" => (readEntries? content.length content).map .tree
    | "commit" => readCommit? content
    | "tag" => do
        let line ← (content.splitOn 0x0A).head?
        return .tag (← headerId? "object " line)
    | _ => none

end StoredObject

end CleanDiff
