import PinnedStore.Node.Basic
import PinnedStore.Text.Quoted

/-!
# Outlines of nodes

A node in one line that shows every part of it by name, for messages to people who look for a fault.
-/

namespace PinnedStore

/-- The outline of a digest. -/
def Digest.outline (d : Digest) : String :=
  s!"Hash({Quoted.encode d.toHex})"

/-- The outline of a link. -/
def Link.outline (l : Link) : String :=
  s!"Link \x7b name: {Quoted.encode l.name}, hash: {l.target.outline} \x7d"

/-- The outline of items, one by one. -/
def outlineList {α : Type} (outline : α → String) (items : List α) : String :=
  "[" ++ ", ".intercalate (items.map outline) ++ "]"

/-- The outline of a node. -/
def Node.outline (n : Node) : String :=
  let links := outlineList Link.outline n.links
  let data := outlineList (fun byte => toString byte.toNat) n.data
  s!"Node \x7b links: {links}, data: {data} \x7d"

end PinnedStore
