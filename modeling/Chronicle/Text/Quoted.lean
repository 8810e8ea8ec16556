/-!
# Chronicle.Text.Quoted

Texts in quotes, for diagnostics.
-/

namespace Chronicle
namespace Text

/-- A character as it stands between quotes: quotes and backslashes behind a backslash, and line
breaks and tabs as the letters that stand for them. -/
def escape : Char → String
  | '"' => "\\\""
  | '\\' => "\\\\"
  | '\n' => "\\n"
  | '\r' => "\\r"
  | '\t' => "\\t"
  | c => String.singleton c

/-- A text in quotes, on one line. -/
def quote (text : String) : String := "\"" ++ String.join (text.toList.map escape) ++ "\""

end Text
end Chronicle
