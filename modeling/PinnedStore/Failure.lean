import PinnedStore.Node.Basic

/-!
# Storage failures

What a storage operation can report instead of an answer.  A failure has one root cause and, around
it, the words of the operations it passed through, outermost first; its message is all of them in
one line.

* `IoError`: what the operating system reports.
* `Cause`, `Failure`: the root cause, and the failure around it.
* `Failure.isNotFound`: the failure comes down to something that is not there.
-/

namespace PinnedStore

/-- What the operating system reports. -/
inductive IoError where
  /-- There is no such file or directory. -/
  | notFound
  /-- The thing is gone, said without an operating system call. -/
  | absent
  /-- Something on the way is no directory. -/
  | notADirectory
  /-- A directory stands where a file was asked for. -/
  | isADirectory
  /-- Something is there already. -/
  | alreadyExists
  /-- The path names the directory it is in. -/
  | busy
  /-- A name, or the whole path, is too long. -/
  | nameTooLong
  /-- The path has a NUL in it. -/
  | nulInPath
  /-- The content is no UTF-8 text. -/
  | invalidText
  /-- The name of a block can not be read. -/
  | invalidName
  /-- Any other failure, in these words. -/
  | other (text : String)
  deriving DecidableEq, Repr

/-- The words of the operating system. -/
def IoError.message : IoError → String
  | .notFound => "No such file or directory (os error 2)"
  | .absent => "entity not found"
  | .notADirectory => "Not a directory (os error 20)"
  | .isADirectory => "Is a directory (os error 21)"
  | .alreadyExists => "File exists (os error 17)"
  | .busy => "Device or resource busy (os error 16)"
  | .nameTooLong => "File name too long (os error 36)"
  | .nulInPath => "file name contained an unexpected NUL byte"
  | .invalidText => "stream did not contain valid UTF-8"
  | .invalidName => "invalid block name"
  | .other text => text

/-- Whether the error says that something is not there. -/
def IoError.isNotFound : IoError → Bool
  | .notFound | .absent => true
  | _ => false

/-- The root cause of a failure. -/
inductive Cause where
  /-- The object is not in the store. -/
  | missing
  /-- The operating system failed. -/
  | io (e : IoError)
  /-- The block of this name is not a node. -/
  | undecodable (d : Digest) (e : Cbor.Error)
  /-- Any other cause, in these words. -/
  | other (text : String)
  deriving DecidableEq

/-- The words for a cause, and for what caused it in turn. -/
def Cause.chain : Cause → List String
  | .missing => ["object not found"]
  | .io e => [e.message]
  | .undecodable d e => [s!"failed to decode node {d}: {e.describe}", e.describe]
  | .other text => [text]

/-- Why a storage operation gave no answer. -/
structure Failure where
  /-- What was being done, outermost first. -/
  context : List String
  cause : Cause
  deriving DecidableEq

namespace Failure

/-- A cause without context. -/
def of (cause : Cause) : Failure := ⟨[], cause⟩

/-- A failure of the operating system. -/
def io (e : IoError) : Failure := of (.io e)

/-- A failure in these words. -/
def other (text : String) : Failure := of (.other text)

/-- The object is not there. -/
def missing : Failure := of .missing

/-- The failure seen from an operation around it. -/
def within (f : Failure) (doing : String) : Failure :=
  { f with context := doing :: f.context }

/-- The words of the failure, outermost first. -/
def chain (f : Failure) : List String := f.context ++ f.cause.chain

/-- The failure in one line. -/
def message (f : Failure) : String := ": ".intercalate f.chain

/-- Whether the failure comes down to something that is not there. -/
def isNotFound (f : Failure) : Bool :=
  match f.cause with
  | .missing => true
  | .io e => e.isNotFound
  | _ => false

@[simp] theorem cause_within (f : Failure) (doing : String) : (f.within doing).cause = f.cause := rfl

@[simp] theorem isNotFound_within (f : Failure) (doing : String) :
    (f.within doing).isNotFound = f.isNotFound := rfl

end Failure

end PinnedStore
