/-!
The reserved words of scripts, and what the layout of a statement needs to know of each.
-/

namespace Minify

inductive Keyword where
  | kwBreak | kwCase | kwCatch | kwClass | kwConst | kwContinue | kwDebugger | kwDefault
  | kwDelete | kwDo | kwElse | kwEnum | kwExport | kwExtends | kwFalse | kwFinally | kwFor
  | kwFunction | kwIf | kwImport | kwIn | kwInstanceof | kwLet | kwNew | kwNull | kwReturn
  | kwSuper | kwSwitch | kwThis | kwThrow | kwTrue | kwTry | kwTypeof | kwVar | kwVoid
  | kwWhile | kwWith | kwYield
  deriving DecidableEq, Repr

namespace Keyword

def table : List (String × Keyword) := [
  ("break", kwBreak), ("case", kwCase), ("catch", kwCatch), ("class", kwClass),
  ("const", kwConst), ("continue", kwContinue), ("debugger", kwDebugger),
  ("default", kwDefault), ("delete", kwDelete), ("do", kwDo), ("else", kwElse),
  ("enum", kwEnum), ("export", kwExport), ("extends", kwExtends), ("false", kwFalse),
  ("finally", kwFinally), ("for", kwFor), ("function", kwFunction), ("if", kwIf),
  ("import", kwImport), ("in", kwIn), ("instanceof", kwInstanceof), ("let", kwLet),
  ("new", kwNew), ("null", kwNull), ("return", kwReturn), ("super", kwSuper),
  ("switch", kwSwitch), ("this", kwThis), ("throw", kwThrow), ("true", kwTrue),
  ("try", kwTry), ("typeof", kwTypeof), ("var", kwVar), ("void", kwVoid),
  ("while", kwWhile), ("with", kwWith), ("yield", kwYield)]

def ofWord? (word : String) : Option Keyword := table.lookup word

/-- Keywords that are a value on their own. -/
def isOperand : Keyword → Bool
  | kwThis | kwSuper | kwNull | kwTrue | kwFalse => true
  | _ => false

def isRestricted : Keyword → Bool
  | kwReturn | kwBreak | kwContinue | kwThrow | kwYield => true
  | _ => false

/-- Keywords that never begin a statement. -/
def continuesStatement : Keyword → Bool
  | kwIn | kwInstanceof | kwElse | kwCatch | kwFinally => true
  | _ => false

def hasHeader : Keyword → Bool
  | kwIf | kwFor | kwWhile | kwWith | kwSwitch | kwCatch => true
  | _ => false

end Keyword

/-- The words that no generated name may be: every keyword, the words reserved in strict code, and
the names that strict code may not bind. -/
def reservedWords : List String := [
  "arguments", "await", "break", "case", "catch", "class", "const", "continue",
  "debugger", "default", "delete", "do", "else", "enum", "eval", "export",
  "extends", "false", "finally", "for", "function", "if", "implements",
  "import", "in", "instanceof", "interface", "let", "new", "null", "of",
  "package", "private", "protected", "public", "return", "static", "super",
  "switch", "this", "throw", "true", "try", "typeof", "var", "void", "while",
  "with", "yield"]

end Minify
