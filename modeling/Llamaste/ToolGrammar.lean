import Llamaste.Agent

/-!
# The grammar of tool calls

When the model has tried to call a tool and the call is malformed, it is asked again under a
grammar that allows nothing but calls of the tools that exist. Source: `child_main.cpp`.
-/

namespace Llamaste

/-- The names in a list of tools. -/
def toolNames (tools : Json) : List Text :=
  match tools with
  | .arr elems => elems.filterMap fun tool =>
      ((tool.find "function".toList).bind (Json.find "name".toList)).bind Json.getString
  | _ => []

/-- The rules of the calls. -/
def callRules : List Text := [
  "root ::= toolcall (ws toolcall)*".toList,
  "toolcall ::= \"<tool_call>\\n\" toolobj \"\\n</tool_call>\" ws".toList,
  "toolobj ::= \"\x7b\" ws \"\\\"name\\\"\" ws \":\" ws toolname ws \",\" ws ".toList ++
    "\"\\\"arguments\\\"\" ws \":\" ws object ws \"\x7d\"".toList]

/-- The rule of the names: a quoted name for each tool. -/
def toolNameRule (names : List Text) : Text :=
  "toolname ::= ".toList ++ (" | ".toList).intercalate
    (names.map fun name => "\"\\\"".toList ++ name ++ "\\\"\"".toList)

/-- The rules of the arguments. -/
def jsonRules : List Text := [
  "object ::= \"\x7b\" ws \"\x7d\" | \"\x7b\" ws members ws \"\x7d\"".toList,
  "members ::= pair (\",\" ws pair)*".toList,
  "pair ::= string ws \":\" ws value".toList,
  "array ::= \"[\" ws \"]\" | \"[\" ws values ws \"]\"".toList,
  "values ::= value (\",\" ws value)*".toList,
  "value ::= string | number | object | array | \"true\" | \"false\" | \"null\"".toList,
  "string ::= \"\\\"\" chars \"\\\"\"".toList,
  "chars ::= char*".toList,
  "char ::= [^\"\\\\\\x00-\\x1f] | \"\\\\\" escape".toList,
  "escape ::= [\"\\\\\\/bfnrt] | \"u\" hex hex hex hex".toList,
  "hex ::= [0-9a-fA-F]".toList,
  "number ::= \"-\"? int frac? exp?".toList,
  "int ::= \"0\" | [1-9] [0-9]*".toList,
  "frac ::= \".\" [0-9]+".toList,
  "exp ::= [eE] [+-]? [0-9]+".toList,
  "ws ::= [ \\t\\n\\r]*".toList]

/-- `build_tool_call_gbnf`: no grammar without tools. -/
def buildToolCallGbnf (tools : Json) : Text :=
  if toolNames tools = [] then []
  else (callRules ++ toolNameRule (toolNames tools) :: jsonRules).flatMap (· ++ "\n".toList)

end Llamaste
