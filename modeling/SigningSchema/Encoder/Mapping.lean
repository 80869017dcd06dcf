import SigningSchema.Encoder.Plan

-- From untyped input to values and bytes, as the plans say.

namespace SigningSchema.EncoderPlans

open Coercion
open Wire (Bytes)

mutual

def mapAt (plans : EncoderPlans) (fullName : String) (path : FieldPath) (input : Json) :
    Except CoercionError Value :=
  match plans.plan? fullName with
  | none => .error (.unknownTypeUrl (Package.typeUrl fullName))
  | some plan =>
    match input with
    | .object members =>
      (mapFields plans path members plan.fields).map fun fields => .object (Table.ofList fields)
    | other => .error (.unlike path "object" other)
termination_by (sizeOf input, 0)

def mapFields (plans : EncoderPlans) (path : FieldPath) (members : List (String × Json))
    (rules : List FieldRule) : Except CoercionError (List (String × Value)) :=
  match rules with
  | [] => .ok []
  | rule :: rest =>
    let fieldPath := path.field rule.camelName
    let mapped :=
      match rule.type, rule.repeated with
      | .scalar kind, false =>
        scalarField kind fieldPath rule.policy (lookUp members rule.camelName rule.name)
      | .scalar kind, true =>
        repeatedField kind.keyword fieldPath rule.policy
          (lookUp members rule.camelName rule.name)
          fun path element _ => scalar kind path element
      | .message nested, false =>
        messageField nested fieldPath rule.policy (lookUp members rule.camelName rule.name)
          fun path given _found => mapAt plans nested path given
      | .message nested, true =>
        repeatedField nested fieldPath rule.policy (lookUp members rule.camelName rule.name)
          fun path element _inside => mapAt plans nested path element
    match mapped with
    | .error error => .error error
    | .ok value =>
      (mapFields plans path members rest).map ((rule.camelName, value) :: ·)
termination_by (sizeOf members, rules.length)
decreasing_by
  · exact Prod.Lex.left _ _ (sizeOf_lt_of_lookUp _found)
  · exact Prod.Lex.left _ _ (sizeOf_lt_of_isElement _inside)
  · exact Prod.Lex.right _ (by simp)

end

def map (plans : EncoderPlans) (fullName : String) (label : String) (input : Json) :
    Except CoercionError Value :=
  plans.mapAt fullName (.root label) input

def encode (plans : EncoderPlans) (fullName : String) (input : Json) :
    Except CoercionError Bytes := do
  let value ← plans.map fullName FieldPath.defaultLabel input
  plans.schema.encode fullName value

def payloadAt? (plans : EncoderPlans) (typeUrl : String) : Option String :=
  (Text.dropBeginning? "/" typeUrl).filter plans.requests.contains

def typeUrls (plans : EncoderPlans) : List String := plans.requests.map Package.typeUrl

def encodePayload (plans : EncoderPlans) (typeUrl : String) (input : Json) :
    Except CoercionError Bytes :=
  match plans.payloadAt? typeUrl with
  | some fullName => plans.encode fullName input
  | none => .error (.unknownTypeUrl typeUrl)

end SigningSchema.EncoderPlans
