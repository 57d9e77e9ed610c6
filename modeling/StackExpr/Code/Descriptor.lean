/-! Method descriptors and the slots their arguments and results take. -/
namespace StackExpr.Descriptor

/-- What follows the next semicolon. -/
def afterSemicolon? : List Char → Option (List Char)
  | [] => none
  | c :: rest => if c = ';' then some rest else afterSemicolon? rest

/-- The slots of the field type at the front, and what follows it. An array takes one slot,
whatever its elements. -/
def field? : List Char → Option (Nat × List Char)
  | [] => none
  | c :: rest =>
    match c with
    | 'J' | 'D' => some (2, rest)
    | 'B' | 'C' | 'F' | 'I' | 'S' | 'Z' => some (1, rest)
    | 'L' => (afterSemicolon? rest).map fun r => (1, r)
    | '[' => (field? rest).map fun (_, r) => (1, r)
    | _ => none

/-- The slots of a run of field types; each takes at least one character. The sum is a natural
number: totals of `2 ^ 31` and more, which a signed 32-bit count cannot hold, are left out of
account. -/
def fields? : (fuel : Nat) → List Char → Option Nat
  | _, [] => some 0
  | 0, _ :: _ => none
  | fuel + 1, cs => do
    let (slots, rest) ← field? cs
    return slots + (← fields? fuel rest)

/-- The slots of the result at the front. -/
def result? : List Char → Option Nat
  | [] => none
  | 'V' :: _ => some 0
  | cs => (field? cs).map (·.1)

/-- Argument and result slots of a descriptor such as `(IJ)D`, for arguments of fewer than `2 ^ 31`
slots in all. -/
def slots? (descriptor : String) : Option (Nat × Nat) :=
  match descriptor.toList with
  | '(' :: rest =>
    match rest.span (· != ')') with
    | (arguments, _ :: result) => do
      let a ← fields? arguments.length arguments
      let r ← result? result
      return (a, r)
    | (_, []) => none
  | _ => none

end StackExpr.Descriptor
