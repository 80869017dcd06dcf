import SigningSchema.Builder.Rendered
import SigningSchema.Encoder.Plan

-- The encoder module in Rust.

namespace SigningSchema.EncoderPlans

open Coercion (Policy)
open Json (quote)

def mapFunction (fullName : String) : String := "map_" ++ Identifier.flatName fullName

def encodeFunction (fullName : String) : String := "encode_" ++ Identifier.flatName fullName

def policyText : Policy → String
  | .required => "Policy::Required"
  | .default => "Policy::OrDefault"

def boolText (value : Bool) : String := if value then "true" else "false"

def imports (config : Config) : String :=
  "use std::collections::BTreeMap;\nuse std::sync::OnceLock;\n\n#[allow(unused_imports)]\n"
    ++ "use " ++ config.runtimeCrate ++ "::\x7b\n"
    ++ "    coerce::\x7bself, child_path, Policy\x7d,\n"
    ++ "    CoerceError, Def, Encoder, Field, Json, ScalarKind, Schema, Value, DEFAULT_LABEL,\n"
    ++ "\x7d;\n\n"

def wireFieldLine (field : WireField) : String :=
  let ending := ", " ++ boolText field.repeated ++ "),\n"
  let start := quote field.name ++ ", " ++ toString field.tag.toNat ++ ", "
  "                "
    ++ match field.type with
      | .scalar kind => "Field::scalar(" ++ start ++ "ScalarKind::" ++ kind.variantName ++ ending
      | .message index => "Field::message(" ++ start ++ toString index ++ ending

def messageTypeLines (type : MessageType) : String :=
  "            Def::new(" ++ quote type.name ++ ", vec![\n"
    ++ Text.concat (type.fields.map wireFieldLine) ++ "            ]),\n"

def schemaFunction (schema : WireSchema) : String :=
  "pub fn schema() -> &'static Schema \x7b\n"
    ++ "    static SCHEMA: OnceLock<Schema> = OnceLock::new();\n"
    ++ "    SCHEMA.get_or_init(|| \x7b\n        Schema::new(vec![\n"
    ++ Text.concat (schema.types.map messageTypeLines)
    ++ "        ])\n    \x7d)\n\x7d\n\n"

def coercionCall (rule : FieldRule) : String :=
  let arguments :=
    "view.get(" ++ quote rule.camelName ++ ", " ++ quote rule.name ++ "), "
      ++ "&child_path(path, " ++ quote rule.camelName ++ "), " ++ policyText rule.policy
  let closure (body : String) : String := ", |v, p| \x7b\n        " ++ body ++ "\n    \x7d)"
  match rule.type, rule.repeated with
  | .scalar kind, false =>
    "coerce::scalar_field(ScalarKind::" ++ kind.variantName ++ ", " ++ arguments ++ ")"
  | .scalar kind, true =>
    "coerce::repeated_field(" ++ arguments ++ ", " ++ quote kind.keyword
      ++ closure ("coerce::scalar(ScalarKind::" ++ kind.variantName ++ ", v, p)")
  | .message nested, false =>
    "coerce::message_field(" ++ arguments ++ ", " ++ quote nested
      ++ closure (mapFunction nested ++ "(v, Some(p))")
  | .message nested, true =>
    "coerce::repeated_field(" ++ arguments ++ ", " ++ quote nested
      ++ closure (mapFunction nested ++ "(v, Some(p))")

def fieldLines (rule : FieldRule) : String :=
  let binding := "f_" ++ Identifier.snakeCase rule.camelName
  "    let " ++ binding ++ " = " ++ coercionCall rule ++ "?;\n"
    ++ "    out.insert(" ++ quote rule.camelName ++ ".to_string(), " ++ binding ++ ");\n"

def mapFunctionLines (plan : MessagePlan) : String :=
  "/// `" ++ plan.fullName ++ "`\n"
    ++ "pub fn " ++ mapFunction plan.fullName
    ++ "(input: &Json, label: Option<&str>) -> Result<Value, CoerceError> \x7b\n"
    ++ "    let path = label.unwrap_or(DEFAULT_LABEL);\n"
    ++ "    let view = coerce::object(input, path)?;\n"
    ++ (if plan.fields.isEmpty then "    let _ = view;\n    Ok(Value::Object(BTreeMap::new()))\n"
      else "    let mut out = BTreeMap::new();\n"
        ++ Text.concat (plan.fields.map fieldLines) ++ "    Ok(Value::Object(out))\n")
    ++ "\x7d\n\n"

def encodeFunctionLines (request : String) : String :=
  "pub fn " ++ encodeFunction request ++ "(input: &Json) -> Result<Vec<u8>, CoerceError> \x7b\n"
    ++ "    let value = " ++ mapFunction request ++ "(input, None)?;\n"
    ++ "    schema().encode(" ++ quote request ++ ", &value)\n\x7d\n\n"

def tableLine (request : String) : String :=
  "    table.insert(" ++ quote (Package.typeUrl request) ++ ", " ++ encodeFunction request ++ ");\n"

def dispatchArm (request : String) : String :=
  "        " ++ quote (Package.typeUrl request) ++ " => " ++ encodeFunction request ++ "(input),\n"

def render (plans : EncoderPlans) (config : Config) : String :=
  generatedHeader ++ "\n" ++ imports config
    ++ schemaFunction plans.schema
    ++ Text.concat (plans.messages.values.map mapFunctionLines)
    ++ Text.concat (plans.requests.map encodeFunctionLines)
    ++ "/// Type URL -> composed encoder.\n"
    ++ "pub fn encoders() -> BTreeMap<&'static str, Encoder> \x7b\n"
    ++ "    let mut table: BTreeMap<&'static str, Encoder> = BTreeMap::new();\n"
    ++ Text.concat (plans.requests.map tableLine)
    ++ "    table\n\x7d\n\n"
    ++ "pub fn encode(type_url: &str, input: &Json) -> Result<Vec<u8>, CoerceError> \x7b\n"
    ++ "    match type_url \x7b\n"
    ++ Text.concat (plans.requests.map dispatchArm)
    ++ "        other => Err(CoerceError::UnknownTypeUrl(other.to_string())),\n"
    ++ "    \x7d\n\x7d\n"

end SigningSchema.EncoderPlans
