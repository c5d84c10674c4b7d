import Retouch.Json.Basic
import Retouch.Markup.TextEdit

/-!
# Elements on the wire

An element as an object: whether it closes itself, its name, and the bytes from its first one to behind its
last one.
-/
namespace Retouch.Markup

def Element.kindName (e : Element) : String :=
  if e.closing.isNone then "jsx_self_closing_element" else "jsx_element"

def Document.elementMembers (d : Document) (e : Element) : Json.Members :=
  [("type", .str e.kindName), ("tag", .str (String.ofList e.name)),
    ("start", .int (byteOffset d.source e.start)), ("end", .int (byteOffset d.source e.stop))]

end Retouch.Markup
