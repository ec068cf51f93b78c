/-!
# Constant values

The values that stand in defaults and in the arguments of directives, over the way numbers are
written: `Value String String` keeps the digits of the source, `Value Int64 Binary64` holds
the numbers themselves.
-/

namespace SdlCompiler

inductive Value (ι φ : Type) where
  | variable (name : String)
  | int (literal : ι)
  | float (literal : φ)
  | string (text : String)
  | boolean (value : Bool)
  | null
  | enum (symbol : String)
  | list (items : List (Value ι φ))
  | object (fields : List (String × Value ι φ))
deriving Repr, Inhabited

namespace Value

variable {ι φ ι' φ' ε : Type}

mutual

/-- Replaces every number, from left to right, and stops at the first that cannot be. -/
def traverse (int : ι → Except ε ι') (float : φ → Except ε φ') :
    Value ι φ → Except ε (Value ι' φ')
  | .variable name => .ok (.variable name)
  | .int literal => do return .int (← int literal)
  | .float literal => do return .float (← float literal)
  | .string text => .ok (.string text)
  | .boolean value => .ok (.boolean value)
  | .null => .ok .null
  | .enum symbol => .ok (.enum symbol)
  | .list items => do return .list (← traverseItems int float items)
  | .object fields => do return .object (← traverseFields int float fields)

def traverseItems (int : ι → Except ε ι') (float : φ → Except ε φ') :
    List (Value ι φ) → Except ε (List (Value ι' φ'))
  | [] => .ok []
  | item :: rest => do
    let item ← item.traverse int float
    return item :: (← traverseItems int float rest)

def traverseFields (int : ι → Except ε ι') (float : φ → Except ε φ') :
    List (String × Value ι φ) → Except ε (List (String × Value ι' φ'))
  | [] => .ok []
  | (name, value) :: rest => do
    let value ← value.traverse int float
    return (name, value) :: (← traverseFields int float rest)

end

end Value

end SdlCompiler
