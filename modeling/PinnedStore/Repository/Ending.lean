import PinnedStore.Disk.Basic
import PinnedStore.Repository.Command

/-!
# How a run ends

A run in a repository leaves a disk behind, and what was said on the way, whatever has become of it.
-/

namespace PinnedStore.Repository

/-- What becomes of a run. -/
inductive Ending where
  | answered (a : Answer)
  | failed (e : Error)
  /-- The configuration asks for pin sets that can not be. -/
  | unusable (e : PinSet.Codec.Invalid)
  /-- The run was stopped. -/
  | stopped

/-- What a run leaves behind. -/
structure Aftermath where
  disk : Disk
  /-- What was said, in order. -/
  journal : List Log.Notice
  ending : Ending

end PinnedStore.Repository
