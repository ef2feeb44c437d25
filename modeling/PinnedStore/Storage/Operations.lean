import PinnedStore.Storage.Program

/-!
# Storage calls

The calls a program makes on the object store and on the records.  Every call is counted, and the
conduct of the storage decides whether it is carried out: a call that fails or is never reached
leaves store and records as they were.  A call that is carried out does what the store or the
records do, unless the storage lies about it.

## Why the calls are the only door

No other program of the library looks at the store or the records directly.  So what can be said
about a run whose storage fails or stops at some point is said by its calls alone.
-/

namespace PinnedStore.Storage

open Program

/-- Announces a call: it is counted, and may fail or be the end of the run. -/
def call (op : Operation) : Program Failure Unit := fun w =>
  let next := { w with clock := w.clock + 1 }
  match w.conduct.verdict w.clock op with
  | .proceed => (.done (), next)
  | .fail f => (.failed f, next)
  | .halt => (.halted, next)

/-- Whether the storage tells a lie. -/
def tells (lie : Lie) : Program Failure Bool :=
  inspect fun w => w.conduct.tells lie

/-- Asks the store. -/
def ask {α : Type} (question : ObjectStore → Except Failure α) : Program Failure α := fun w =>
  match question w.store with
  | .ok a => (.done a, w)
  | .error f => (.failed f, w)

/-- Changes the store, which may be left changed by a failure. -/
def change (action : ObjectStore → Except Failure Unit × ObjectStore) : Program Failure Unit :=
  fun w =>
    match action w.store with
    | (.ok (), store) => (.done (), { w with store })
    | (.error f, store) => (.failed f, { w with store })

/-- Whether the store answers that there is an object at a path. -/
def present (path : String) : Program Failure Bool :=
  inspect fun w => match w.store.isThere path with
    | .ok there => there
    | .error _ => false

/-! ## Objects -/

/-- What the store says about itself.  This is no call: a store always knows. -/
def features : Program Failure Features := inspect fun w => w.store.features

/-- Whether there is an object at a path. -/
def isThere (path : String) : Program Failure Bool := do
  call (.isThere path)
  if ← tells .presence then return true
  ask (ObjectStore.isThere path)

/-- Writes an object, in place of the one at its path. -/
def put (path : String) (content : Bytes) : Program Failure Unit := do
  call (.put path)
  if ← tells .writes then return ()
  if ← tells .overwrites then
    if ← present path then return ()
  change (ObjectStore.put path content)

/-- Reads an object from `offset` on, at most `limit` bytes. -/
def read (path : String) (offset : Nat) (limit : Option Nat) : Program Failure Bytes := do
  call (.read path)
  if ← tells .absence then
    if !(← present path) then return []
  let offset := if ← tells .offsets then 0 else offset
  let limit := if ← tells .limits then none else limit
  ask (ObjectStore.read path offset limit)

/-- The size of an object. -/
def size (path : String) : Program Failure Nat := do
  call (.size path)
  let found ← ask (ObjectStore.size path)
  if ← tells .sizes then return found + 1
  return found

/-- The paths of all objects. -/
def list : Program Failure (List String) := do
  call .list
  if ← tells .listing then return []
  let paths ← inspect fun w => w.store.list
  if ← tells .separators then
    return paths.map fun path => path.map fun c => if c = '/' then '\\' else c
  return paths

/-- Removes an object; it does not matter whether it is there. -/
def delete (path : String) : Program Failure Unit := do
  call (.delete path)
  if ← tells .removals then return ()
  change fun store =>
    match store.delete path with
    | .ok store => (.ok (), store)
    | .error f => (.error f, store)

/-! ## Records -/

/-- Changes the records. -/
def changeRecords (action : Records → Records) : Program Failure Unit :=
  update fun w => { w with records := action w.records }

/-- The value of a record, if it has one. -/
def getRecord (key : String) : Program Failure (Option Bytes) := do
  call (.getRecord key)
  if ← tells .recordReads then return some (Bytes.ofText "stale")
  inspect fun w => w.records[key]?

/-- Sets the value of a record. -/
def putRecord (key : String) (value : Bytes) : Program Failure Unit := do
  call (.putRecord key)
  if ← tells .recordWrites then return ()
  if ← tells .recordOverwrites then
    if ← inspect fun w => w.records.contains key then return ()
  changeRecords fun records => records.insert key value

/-- Removes a record; it does not matter whether it is there. -/
def deleteRecord (key : String) : Program Failure Unit := do
  call (.deleteRecord key)
  if ← tells .recordRemovals then return ()
  changeRecords fun records => records.erase key

end PinnedStore.Storage
