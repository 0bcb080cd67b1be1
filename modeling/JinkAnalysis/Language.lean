import JinkAnalysis.Text.Basic

/-!
# The surface of the Jink language

The reserved words of Jink, the names that are always in scope, and the file extension of its
sources.
-/

namespace JinkAnalysis

/-- The reserved words. -/
def keywords : List Text :=
  ["if", "else", "elseif", "return", "del", "fun", "let", "const", "type", "cls", "pub", "import",
    "from", "as", "while", "for", "in", "break", "continue", "enum", "extern"].map String.toList

/-- The names that are in scope everywhere. -/
def builtins : List Text :=
  ["void", "true", "false", "null", "self", "int", "float", "string", "bool", "ptr", "obj",
    "__ptr_write_int", "__ptr_read_int", "__ptr_write_string",
    "__ptr_read_string"].map String.toList

/-- The reserved words after which a name is being declared. -/
def declarationKeywords : List Text :=
  ["let", "const", "type", "enum", "cls", "fun", "extern"].map String.toList

/-- The characters that are tokens of their own. -/
def punctuationMarks : List Char :=
  ['\x7b', '\x7d', '(', ')', ';', '=', '.', ',', ':', '[', ']', '+', '-', '*', '/', '%', '<', '>',
    '&', '|', '!', '^', '~']

/-- The ending of the names of source files. -/
def sourceExtension : Text := ".jk".toList

end JinkAnalysis
