import SigningSchema.Coercion.Field
import SigningSchema.Corpus.Closure
import SigningSchema.WireSchema

-- How the messages that payloads reach are coerced and written.

namespace SigningSchema

open Coercion (Policy)

structure FieldRule where
  name : String
  camelName : String
  tag : UInt32
  type : TypeClass
  repeated : Bool
  policy : Policy
  deriving DecidableEq, Repr

structure MessagePlan where
  fullName : String
  fields : List FieldRule
  deriving DecidableEq, Repr

structure EncoderPlans where
  messages : Table MessagePlan
  requests : NameSet
  schema : WireSchema
  deriving DecidableEq, Repr

namespace EncoderPlans

def policyOf (config : Config) (message : MessageDecl) (fullName camelName : String) : Policy :=
  if config.isParamsMessage message.name || config.hasFieldDefault fullName camelName then
    .default
  else .required

def planOf (corpus : Corpus) (config : Config) (fullName : String) :
    Except GenerationError MessagePlan := do
  let message ← corpus.message fullName
  let fields ← corpus.resolvedFields fullName
  return ⟨fullName, fields.map fun field =>
    { name := field.name
      camelName := field.camelName
      tag := field.tag
      type := field.type
      repeated := field.repeated
      policy := policyOf config message fullName field.camelName }⟩

def wireField (plans : Table MessagePlan) (rule : FieldRule) :
    Except GenerationError WireField :=
  match rule.type with
  | .scalar kind => .ok ⟨rule.camelName, rule.tag, .scalar kind, rule.repeated⟩
  | .message fullName =>
    match plans.keys.findIdx? (· = fullName) with
    | some index => .ok ⟨rule.camelName, rule.tag, .message index, rule.repeated⟩
    | none => .error (.missingMessage fullName)

def wireSchema (plans : Table MessagePlan) : Except GenerationError WireSchema := do
  let types ← plans.values.mapM fun plan => do
    return MessageType.mk plan.fullName (← plan.fields.mapM (wireField plans))
  return ⟨types⟩

def ofCorpus (corpus : Corpus) (config : Config) : Except GenerationError EncoderPlans := do
  let closure ← corpus.fullClosure
  let plans ← closure.mapM (planOf corpus config)
  let messages := Table.ofList (plans.map fun plan => (plan.fullName, plan))
  return ⟨messages, corpus.requestTypes, ← wireSchema messages⟩

def plan? (plans : EncoderPlans) (fullName : String) : Option MessagePlan :=
  plans.messages.get? fullName

end EncoderPlans

end SigningSchema
