import SvgPress.Pass.Basic
import SvgPress.Text.Blank

/-!
A canonical order of attributes: the default namespace, then prefixed namespaces, then the names of
a given order, then the rest. Names of one rank stand in alphabetical order.
-/

namespace SvgPress.AttributeOrder

/-- The part of a name before its first hyphen. -/
def stem (name : String) : String :=
  String.ofList (name.toList.takeWhile (· != '-'))

/-- The rank of a name. A name counts as the first of the given order that is the name itself or
its stem. -/
def rank (order : List String) (name : String) : Nat × Nat :=
  if name = "xmlns" then (0, 0)
  else if Text.startsWith name "xmlns:" then (1, 0)
  else
    match order.findIdx? fun o => o == name || o == stem name with
    | some i => (2, i)
    | none => (3, 0)

/-- Whether one name may stand before another. -/
def precedes (order : List String) (a b : String) : Bool :=
  let (group, place) := rank order a
  let (group', place') := rank order b
  group < group' ||
    (group == group' && (place < place' || (place == place' && decide (a ≤ b))))

/-- The attributes in order. Those of one name keep their order among themselves. -/
def sort (order : List String) (attributes : Attributes) : Attributes :=
  List.mergeSort attributes fun a b => precedes order a.name b.name

def sortAttributes : Pass where
  name := "sortAttrs"
  description := "sorts element attributes for better gzip compression"
  defaults := some [("order", Json.Value.ofStrings
    ["id", "width", "height", "x", "x1", "x2", "y", "y1", "y2", "cx", "cy", "r", "fill", "stroke",
      "marker", "d", "points"])]
  apply := fun params doc => do
    let order ← params.texts "order"
    return doc.mapTags fun tag => { tag with attributes := sort order tag.attributes }

end SvgPress.AttributeOrder
