import ScriptHost.Numeric.Shortest
import ScriptHost.Text.Quoted
import ScriptHost.Value.Basic

/-!
Conversions and comparisons of values, and the operators built on them. No operator fails: what is
no number counts as the number that is none.
-/

namespace ScriptHost

namespace Value

/-- The number that is none. -/
def notANumber : Float := 0.0 / 0.0

/-- Whether a value is undefined. -/
def isUndefined : Value → Bool
  | undefined => true
  | _ => false

/-- Whether a value can be called. -/
def isCallable : Value → Bool
  | function _ _ | native _ _ => true
  | _ => false

/-- The number that a value is. -/
def number? : Value → Option Float
  | number x => some x
  | _ => none

/-- The text that a value is. -/
def string? : Value → Option String
  | string s => some s
  | _ => none

/-- Whether a value counts as true in a condition. -/
def isTruthy : Value → Bool
  | undefined | null => false
  | bool b => b
  | number x => x == x && x != 0.0
  | string s => s != ""
  | object _ | function _ _ | native _ _ => true

/-- Name of the type of a value; null counts as an object. -/
def typeName : Value → String
  | undefined => "undefined"
  | null | object _ => "object"
  | bool _ => "boolean"
  | number _ => "number"
  | string _ => "string"
  | function _ _ | native _ _ => "function"

/-- The number that a value counts as in arithmetic. -/
def toNumber : Value → Float
  | undefined | object _ | function _ _ | native _ _ => notANumber
  | null => 0.0
  | bool b => if b then 1.0 else 0.0
  | number x => x
  | string s => textToFloat s

/-- The text that a value counts as, which is also how it is printed. -/
def display : Value → String
  | undefined => "undefined"
  | null => "null"
  | bool b => if b then "true" else "false"
  | number x => floatText x
  | string s => s
  | object _ => "[object Object]"
  | function _ closure => "function " ++ closure.code.name.getD "" ++ "() \x7b [code] \x7d"
  | native _ code => "function " ++ code.name ++ "() \x7b [native code] \x7d"

/-- The text of a value in which strings are told apart by quotes. -/
def inspect : Value → String
  | string s => quote s
  | v => v.display

/-- Equality within a type: objects and functions by identity, all else by value. -/
def strictEquals : Value → Value → Bool
  | undefined, undefined => true
  | null, null => true
  | bool a, bool b => a == b
  | number a, number b => a == b
  | string a, string b => a == b
  | object a, object b => a == b
  | function a _, function b _ => a == b
  | native a _, native b _ => a == b
  | _, _ => false

/-- Equality across types: undefined equals null, and a number is compared with a string or a
truth value as a number. -/
def looseEquals : Value → Value → Bool
  | undefined, undefined | undefined, null | null, undefined | null, null => true
  | a@(number _), b@(string _) | a@(number _), b@(bool _)
  | a@(string _), b@(number _) | a@(bool _), b@(number _) => a.toNumber == b.toNumber
  | a, b => a.strictEquals b

/-- Order of two values: of texts if both are, else of the numbers they count as. -/
def compareWith (texts : String → String → Bool) (numbers : Float → Float → Bool) :
    Value → Value → Bool
  | string a, string b => texts a b
  | a, b => numbers a.toNumber b.toNumber

/-- Sum of two values: joined texts if either is a text, else the sum of numbers. -/
def add (a b : Value) : Value :=
  match a, b with
  | string _, _ | _, string _ => string (a.display ++ b.display)
  | _, _ => number (a.toNumber + b.toNumber)

/-- Result of an operator between two values. -/
def binary : BinaryOp → Value → Value → Value
  | .add, a, b => a.add b
  | .sub, a, b => number (a.toNumber - b.toNumber)
  | .mul, a, b => number (a.toNumber * b.toNumber)
  | .div, a, b => number (a.toNumber / b.toNumber)
  | .mod, a, b => number (floatRemainder a.toNumber b.toNumber)
  | .equal, a, b => bool (a.looseEquals b)
  | .notEqual, a, b => bool (!a.looseEquals b)
  | .strictEqual, a, b => bool (a.strictEquals b)
  | .strictNotEqual, a, b => bool (!a.strictEquals b)
  | .less, a, b => bool (compareWith (fun s t => s < t) (fun x y => x < y) a b)
  | .lessEqual, a, b => bool (compareWith (fun s t => !(t < s : Bool)) (fun x y => x ≤ y) a b)
  | .greater, a, b => bool (compareWith (fun s t => t < s) (fun x y => y < x) a b)
  | .greaterEqual, a, b => bool (compareWith (fun s t => !(s < t : Bool)) (fun x y => y ≤ x) a b)

/-- Result of an operator before a value. -/
def unary : UnaryOp → Value → Value
  | .negate, v => number (-v.toNumber)
  | .not, v => bool (!v.isTruthy)
  | .typeOf, v => string v.typeName

theorem isCallable_iff {v : Value} :
    v.isCallable = true ↔
      (∃ identity closure, v = function identity closure) ∨ ∃ identity code, v = native identity code := by
  cases v <;> simp [isCallable]

end Value

end ScriptHost
