-- Where in an input a field lies.

namespace SigningSchema

inductive PathStep where
  | field (name : String)
  | index (position : Nat)
  deriving DecidableEq, Repr

structure FieldPath where
  label : String
  steps : List PathStep
  deriving DecidableEq, Repr

def PathStep.text : PathStep → String
  | field name => "." ++ name
  | index position => "[" ++ toString position ++ "]"

namespace FieldPath

def root (label : String) : FieldPath := ⟨label, []⟩

def field (path : FieldPath) (name : String) : FieldPath :=
  { path with steps := path.steps ++ [.field name] }

def index (path : FieldPath) (position : Nat) : FieldPath :=
  { path with steps := path.steps ++ [.index position] }

def text (path : FieldPath) : String :=
  path.steps.foldl (fun text step => text ++ step.text) path.label

def defaultLabel : String := "value"

end FieldPath

end SigningSchema
