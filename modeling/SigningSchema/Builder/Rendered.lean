import SigningSchema.Builder.Table
import SigningSchema.Json.Printer

-- The builder module in Rust.

namespace SigningSchema

open Json (quote)

def generatedHeader : String := "// @generated by protosign. Do not edit.\n"

namespace BuilderTable

def importLine (entry : BuilderEntry) : String :=
  if entry.isAliased then "use " ++ entry.importPath ++ " as " ++ entry.importName ++ ";\n"
  else "use " ++ entry.importPath ++ ";\n"

def variantLines (entry : BuilderEntry) : String :=
  "    /// `" ++ entry.typeUrl ++ "`\n    " ++ entry.variant ++ "(" ++ entry.importName ++ "),\n"

def addressArm (entry : BuilderEntry) : String :=
  "            Payload::" ++ entry.variant ++ "(_) => " ++ quote entry.typeUrl ++ ",\n"

def constructorLines (entry : BuilderEntry) : String :=
  "\n    pub fn " ++ entry.functionName ++ "(value: " ++ entry.importName ++ ") -> Payload \x7b\n"
    ++ "        Payload::" ++ entry.variant ++ "(value)\n    \x7d\n"

def moduleLines : List BuilderEntry → String
  | [] => ""
  | first :: rest =>
    "\npub mod " ++ first.functionModule ++ " \x7b\n    use super::*;\n"
      ++ Text.concat ((first :: rest).map constructorLines) ++ "\x7d\n"

def render (table : BuilderTable) : String :=
  let entries := table.entries
  generatedHeader ++ "\n"
    ++ Text.concat (entries.map importLine)
    ++ (if entries.isEmpty then "" else "\n")
    ++ "/// Every payload the builders can produce.\n#[derive(Debug, Clone, PartialEq)]\n"
    ++ "pub enum Payload \x7b\n"
    ++ Text.concat (entries.map variantLines)
    ++ "\x7d\n\nimpl Payload \x7b\n    pub fn type_url(&self) -> &'static str \x7b\n"
    ++ (if entries.isEmpty then "        match *self \x7b\x7d\n"
      else "        match self \x7b\n" ++ Text.concat (entries.map addressArm) ++ "        \x7d\n")
    ++ "    \x7d\n\x7d\n\npub const TYPE_URLS: &[&str] = &[\n"
    ++ Text.concat (entries.map fun entry => "    " ++ quote entry.typeUrl ++ ",\n")
    ++ "];\n"
    ++ Text.concat (table.modules.map fun (_, entries) => moduleLines entries)

end BuilderTable

end SigningSchema
