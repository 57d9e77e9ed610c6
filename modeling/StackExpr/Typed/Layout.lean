import StackExpr.Typed.Basic

/-! The layout of a literal whose keys are all known at compile time. -/
namespace StackExpr

/-- Keys in container order, each with the value that wins. -/
abbrev Layout := List (String × Typed)

/-- A new key goes last; a repeated key keeps its place and takes the new value. -/
def Layout.put (key : String) (value : Typed) : Layout → Layout
  | [] => [(key, value)]
  | (k, v) :: rest => if k = key then (k, value) :: rest else (k, v) :: Layout.put key value rest

mutual

/-- Adds one entry to a layout; a computed key or a spread of anything but a literal defeats it. -/
def Entry.layout? (layout : Layout) : Entry → Option Layout
  | .fixed key _ value _ => some (layout.put key.keyText value)
  | .computed _ _ _ => none
  | .spread source _ => source.spreadLayout? layout

def Typed.spreadLayout? (layout : Layout) : Typed → Option Layout
  | .record _ entries _ => Entry.layouts? layout entries
  | _ => none

def Entry.layouts? (layout : Layout) : List Entry → Option Layout
  | [] => some layout
  | e :: rest =>
    match e.layout? layout with
    | some next => Entry.layouts? next rest
    | none => none

end

def Plan.layout? (p : Plan) : Option Layout := Entry.layouts? [] p.entries

end StackExpr
