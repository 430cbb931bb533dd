import Lox.Stmt

/-
  Values — what expressions evaluate to

  Functions, classes and objects have an identity, a number given out when they
  are made; two of them are equal iff they are the same one. Frames of variables
  are known by their number. Functions and classes never change and are held in
  the value itself; an object's fields do change and are kept in the heap.
-/

namespace Lox

/-- The number of a frame of variables. -/
abbrev FrameId := Nat

/-- The name under which a method's object is bound. -/
def selfName : String := "this"

/-- The name under which the superclass of a method's class is bound. -/
def superName : String := "super"

/-- A function or method declaration with the frame it was made in. -/
structure Closure where
  declaration : Function
  frame : FrameId
  /-- Whether it is a method named `init`, which yields its object. -/
  initializer : Bool

namespace Closure

def name (c : Closure) : String := c.declaration.name.lexeme

def arity (c : Closure) : Nat := c.declaration.arity

end Closure

/-- A class: its name, the class it extends and its own methods by name. Of
several methods with one name the first in the list counts. -/
inductive Class where
  | mk (name : String) (superclass : Option Class) (methods : List (String × Closure))

namespace Class

def name : Class → String
  | mk name _ _ => name

def superclass : Class → Option Class
  | mk _ superclass _ => superclass

def methods : Class → List (String × Closure)
  | mk _ _ methods => methods

/-- The method of a class, its own or else inherited. -/
def findMethod? : Class → String → Option Closure
  | mk _ none methods, name => methods.lookup name
  | mk _ (some superclass) methods, name =>
    match methods.lookup name with
    | some method => some method
    | none => superclass.findMethod? name

/-- The name of the method that runs when an object is made. -/
def initializerName : String := "init"

/-- How many arguments making an object takes. -/
def arity (c : Class) : Nat :=
  match c.findMethod? initializerName with
  | some method => method.arity
  | none => 0

end Class

inductive Value where
  | nil
  | boolean (b : Bool)
  | number (x : Float)
  | string (text : String)
  /-- The built-in function that tells the time. -/
  | clock
  | function (id : Nat) (closure : Closure)
  | cls (id : Nat) (c : Class)
  | object (id : Nat) (c : Class)

namespace Value

/-- Everything except `nil` and `false` counts as true. -/
def truthy : Value → Bool
  | nil => false
  | boolean b => b
  | _ => true

/-- Equality without conversions: values of different kinds differ, numbers are
compared as numbers, and functions, classes and objects by identity. -/
def equals : Value → Value → Bool
  | nil, nil => true
  | boolean a, boolean b => a == b
  | number a, number b => a == b
  | string a, string b => a == b
  | clock, clock => true
  | function a _, function b _ => a == b
  | cls a _, cls b _ => a == b
  | object a _, object b _ => a == b
  | _, _ => false

/-- The name of a value's kind. -/
def kindName : Value → String
  | nil => "nil"
  | boolean _ => "boolean"
  | number _ => "number"
  | string _ => "string"
  | clock => "function"
  | function _ _ => "function"
  | cls _ _ => "class"
  | object _ _ => "instance"

/-- Printed numbers: whole ones have all their digits and no point. -/
def numberFormat : Number.Plain := ⟨none, []⟩

/-- The text of a value as it is printed. -/
def display : Value → String
  | nil => "nil"
  | boolean true => "true"
  | boolean false => "false"
  | number x => numberFormat.text x
  | string text => text
  | clock => "<native fn>"
  | function _ closure => "<fn " ++ closure.name ++ ">"
  | cls _ c => c.name
  | object _ c => c.name ++ " instance"

/-- How many arguments a call takes, if a value can be called. -/
def arity? : Value → Option Nat
  | clock => some 0
  | function _ closure => some closure.arity
  | cls _ c => some c.arity
  | _ => none

end Value
end Lox
