import PinnedStore.Storage.Operations

/-!
# Conformance

Checks that any object store and any records must pass.  They tell storage that does what it says
from storage that does not, so each of them either finds nothing, or stops at its first finding, or
stops at a call that fails.

The checks on a store write below a directory of their own, named after the number of calls made so
far, so that they can be run, and run again, on a store that holds other things.

* `StoreCheck`, `checkStore`: single checks on a store, and all of them.
* `checkRecords`: the check on records.
-/

namespace PinnedStore.Conformance

open Program

/-- What a check can find. -/
inductive Finding where
  /-- An object is there that nobody wrote. -/
  | presentBeforeWrite (path : String)
  /-- An object is not there after a write. -/
  | absentAfterWrite (path : String)
  /-- An object has not the content or the size that was written. -/
  | differs (path : String)
  /-- An object that nobody wrote can be read. -/
  | readable (content : Bytes)
  /-- Reading an object that nobody wrote fails, but not because it is not there. -/
  | wrongFailure (f : Failure)
  /-- An object is there after its removal. -/
  | survives (path : String)
  /-- An object is not listed. -/
  | unlisted (path : String)
  /-- A record does not have the value that was expected, in these words. -/
  | record (expected : String)

/-- The words for what was found. -/
def Finding.message : Finding → String
  | .presentBeforeWrite path => s!"{path} exists before any write"
  | .absentAfterWrite path => s!"{path} is missing after a write"
  | .differs path => s!"{path} is not what was written"
  | .readable _ => "reading a missing object should fail"
  | .wrongFailure f => s!"missing object should report not-found, got: {f.message}"
  | .survives path => s!"{path} survived delete"
  | .unlisted path => s!"list is missing {path}"
  | .record expected => expected

/-- Why a check stops. -/
inductive Stop where
  /-- A call failed. -/
  | storage (f : Failure)
  | finding (x : Finding)

/-- A check. -/
abbrev Check (α : Type) := Program Stop α

/-- Makes a call for a check. -/
def call {α : Type} (p : Program Failure α) : Check α := mapError .storage p

/-- Stops with a finding unless what is expected holds. -/
def expect (holds : Bool) (x : Finding) : Check Unit :=
  if holds then return () else fail (.finding x)

/-! ## Stores -/

/-- The directory of a run, by the number of calls before it. -/
def area (number : Nat) : String :=
  let digits := Nat.toDigits 16 (number % UInt32.size)
  "_conformance_" ++ String.ofList (List.replicate (8 - digits.length) '0' ++ digits) ++ "/"

/-- A content long enough not to be read or written by accident. -/
def longContent : Bytes := (List.range 12345).map Nat.toUInt8

/-- What is there follows the last write. -/
def writes (area : String) : Check Unit := do
  let path := area ++ "object.bin"
  expect (!(← call (Storage.isThere path))) (.presentBeforeWrite path)
  call (Storage.put path longContent)
  expect (← call (Storage.isThere path)) (.absentAfterWrite path)
  expect ((← call (Storage.size path)) = longContent.length) (.differs path)
  expect ((← call (Storage.read path 0 none)) = longContent) (.differs path)
  let second := Bytes.ofText "replacement"
  call (Storage.put path second)
  expect ((← call (Storage.read path 0 none)) = second) (.differs path)
  expect ((← call (Storage.size path)) = second.length) (.differs path)

/-- Reading can start anywhere and end anywhere. -/
def windows (area : String) : Check Unit := do
  let path := area ++ "ranged.bin"
  call (Storage.put path (Bytes.ofText "0123456789abcdef"))
  expect ((← call (Storage.read path 10 none)) = Bytes.ofText "abcdef") (.differs path)
  expect ((← call (Storage.read path 2 (some 3))) = Bytes.ofText "234") (.differs path)
  expect ((← call (Storage.read path 14 (some 10))) = Bytes.ofText "ef") (.differs path)

/-- Reading what nobody wrote fails because it is not there. -/
def absences (area : String) : Check Unit := do
  match ← attempt (Storage.read (area ++ "never_written.bin") 0 none) with
  | .ok content => fail (.finding (.readable content))
  | .error f => expect f.isNotFound (.wrongFailure f)

/-- What is removed is gone. -/
def removals (area : String) : Check Unit := do
  let path := area ++ "doomed.bin"
  call (Storage.put path (Bytes.ofText "short lived"))
  call (Storage.delete path)
  expect (!(← call (Storage.isThere path))) (.survives path)

/-- A path with slashes of one kind. -/
def slashed (path : String) : String :=
  path.map fun c => if c = '\\' then '/' else c

/-- Everything is listed, at any depth. -/
def listing (area : String) : Check Unit := do
  let wanted := ["a.bin", "b.bin", "nested/deeper/c.bin"].map (area ++ ·)
  forEach wanted fun path => call (Storage.put path (Bytes.ofText "x"))
  let listed := (← call Storage.list).map slashed
  forEach wanted fun path => expect (listed.contains path) (.unlisted path)

/-- Removes what the checks wrote. -/
def cleanup (area : String) : Check Unit := do
  let ours := (← call Storage.list).filter fun path =>
    area.toList.isPrefixOf (slashed path).toList
  forEach ours fun path => call (Storage.delete path)

/-- The checks on a store, and the removal of what they wrote. -/
inductive StoreCheck where
  | writes | windows | absences | removals | listing | cleanup
  deriving DecidableEq, Repr

/-- Runs a check below a directory. -/
def StoreCheck.run (area : String) : StoreCheck → Check Unit
  | .writes => Conformance.writes area
  | .windows => Conformance.windows area
  | .absences => Conformance.absences area
  | .removals => Conformance.removals area
  | .listing => Conformance.listing area
  | .cleanup => Conformance.cleanup area

/-- Every check on a store, in order. -/
def storeChecks : List StoreCheck :=
  [.writes, .windows, .absences, .removals, .listing, .cleanup]

/-- Runs checks on a store below a directory that is used for the first time. -/
def checkStore (checks : List StoreCheck) : Check Unit := do
  let area := area (← inspect World.clock)
  forEach checks fun check => check.run area

/-! ## Records -/

/-- A record has the value of its last write, and none before the first one and after its
removal. -/
def checkRecords : Check Unit := do
  let key := "/_test/" ++ toString (← inspect World.clock)
  expect ((← call (Storage.getRecord key)) = none) (.record "fresh key is unset")
  call (Storage.putRecord key (Bytes.ofText "first"))
  call (Storage.putRecord key (Bytes.ofText "second"))
  expect ((← call (Storage.getRecord key)) = some (Bytes.ofText "second"))
    (.record "last put wins")
  call (Storage.deleteRecord key)
  expect ((← call (Storage.getRecord key)) = none) (.record "deleted key is unset")

end PinnedStore.Conformance
