import PinnedStore.Node.Basic

/-!
# Links written as text

A link is written as its name, an equals sign, and the digest of its target.  The first equals sign
ends the name, so a name can be empty and can hold anything but that sign.

* `Link.parse`: reads a link.
* `Link.text`: writes one.
-/

namespace PinnedStore.Link

/-- Why a text is no link. -/
inductive Error where
  /-- There is no equals sign in this text. -/
  | unnamed (text : String)
  /-- What follows the first equals sign of this text is no digest. -/
  | target (text : String) (cause : Digest.Error)
  deriving DecidableEq, Repr

/-- The words for a text that is no link. -/
def Error.message : Error → String
  | .unnamed text => s!"expected NAME=HASH, got '{text}'"
  | .target text cause => s!"invalid hash in link '{text}': {cause.message}"

/-- The written form of a link. -/
def text (l : Link) : String :=
  String.ofList (l.name.toList ++ '=' :: l.target.toHex.toList)

/-- Reads a link.  White space around the digest does not matter. -/
def parse (text : String) : Except Error Link :=
  let chars := text.toList
  match chars.dropWhile (· ≠ '=') with
  | [] => .error (.unnamed text)
  | _ :: rest =>
    match Digest.parse (String.ofList rest) with
    | .ok target => .ok ⟨String.ofList (chars.takeWhile (· ≠ '=')), target⟩
    | .error cause => .error (.target text cause)

end PinnedStore.Link
