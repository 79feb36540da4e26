/-
# Words that are no names

Source: `mangler.Keywords`.

Words that must not be given as a new name: reserved words, words reserved in
strict mode, and names to which the runtime or the type system gives a meaning.
-/

namespace Moniker

/-- Words that are never given as names. -/
def keywords : List String :=
  ["break", "case", "catch", "class", "const", "continue", "debugger", "default", "delete", "do",
    "else", "enum", "export", "extends", "false", "finally", "for", "function", "if", "import",
    "in", "instanceof", "new", "null", "return", "super", "switch", "this", "throw", "true",
    "try", "typeof", "var", "void", "while", "with",
    "implements", "interface", "let", "package", "private", "protected", "public", "static",
    "yield",
    "as", "async", "await", "arguments", "eval", "get", "is", "of", "set", "type", "undefined",
    "NaN", "Infinity",
    "any", "bigint", "boolean", "never", "number", "object", "string", "symbol", "unknown"]

/-- Is the word a keyword? -/
def isKeyword (s : String) : Bool := keywords.contains s

end Moniker
