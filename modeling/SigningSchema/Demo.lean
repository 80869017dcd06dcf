import SigningSchema.Generation
import SigningSchema.Source.Reader

-- A small schema, what is generated for it, and its payloads as a consumer holds and sends them.

namespace SigningSchema.Demo

def schemaPath : String := "demo/license/v1/tx.proto"

def schemaText : String :=
  "syntax = \"proto3\";\n\npackage demo.license.v1;\n\n"
    ++ "import \"google/protobuf/duration.proto\";\nimport \"amino/amino.proto\";\n\n"
    ++ "service Msg \x7b\n"
    ++ "  rpc Delegate(MsgDelegate) returns (MsgDelegateResponse);\n"
    ++ "  rpc Revoke(MsgRevoke) returns (MsgRevokeResponse);\n"
    ++ "\x7d\n\n"
    ++ "// Grants an operator the right to use a set of licenses.\n"
    ++ "message MsgDelegate \x7b\n"
    ++ "  option (amino.name) = \"license/MsgDelegate\";\n\n"
    ++ "  string owner = 1;\n"
    ++ "  string operator = 2;\n"
    ++ "  repeated uint64 license_ids = 3;\n"
    ++ "  Window window = 4;\n"
    ++ "\x7d\n\n"
    ++ "message Window \x7b\n"
    ++ "  google.protobuf.Duration period = 1;\n"
    ++ "  bool renewable = 2;\n"
    ++ "\x7d\n\n"
    ++ "message MsgDelegateResponse \x7b\x7d\n\n"
    ++ "message MsgRevoke \x7b\n"
    ++ "  string owner = 1;\n"
    ++ "  string operator = 2;\n"
    ++ "\x7d\n\n"
    ++ "message MsgRevokeResponse \x7b\x7d\n"

def corpus : Corpus :=
  Corpus.ofFiles (SourceFile.read? Config.standard schemaPath schemaText).toList

def generation : Except GenerationError Generation :=
  Generation.ofCorpus corpus Config.standard

-- The nanos stay below one second and do not oppose the seconds.
structure Period where
  seconds : Int64
  nanos : Int32
  fraction : nanos.toInt.natAbs ≤ 999999999
  forward : 0 < seconds.toInt → 0 ≤ nanos.toInt
  backward : seconds.toInt < 0 → nanos.toInt ≤ 0

structure Window where
  period : Period
  renewable : Bool

inductive Payload where
  | delegate (owner operator : String) (licenseIds : List UInt64) (window : Window)
  | revoke (owner operator : String)

def Period.document (period : Period) : Json := .object [
  ("nanos", .number (.integer period.nanos.toInt)),
  ("seconds", .number (.integer period.seconds.toInt))]

def Window.document (window : Window) : Json := .object [
  ("period", window.period.document),
  ("renewable", .bool window.renewable)]

namespace Payload

def fullName : Payload → String
  | delegate .. => "demo.license.v1.MsgDelegate"
  | revoke .. => "demo.license.v1.MsgRevoke"

def typeUrl (payload : Payload) : String := Package.typeUrl payload.fullName

def document : Payload → Json
  | delegate owner operator licenseIds window => .object [
    ("licenseIds", .array (licenseIds.map fun id => .number (.integer id.toNat))),
    ("operator", .string operator),
    ("owner", .string owner),
    ("window", window.document)]
  | revoke owner operator => .object [("operator", .string operator), ("owner", .string owner)]

end Payload

end SigningSchema.Demo
