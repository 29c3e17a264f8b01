import Minify.Options
import Minify.Payload.Encoder
import Minify.Rename.Shrink
import Minify.Scope.Tracker
import Minify.SourceMap
import Minify.Token.Lexer

/-!
Packing a script: reading its tokens, changing names, laying the tokens out, and packing the result
with a dictionary, as the options say.
-/

namespace Minify

inductive PackError where
  | lex (e : LexError)
  | scope (e : ScopeError)
  | encoding (e : EncodingError)
  deriving DecidableEq, Repr

namespace PackError

/-- The byte of the script at fault, if the fault lies in the script. -/
def offset? : PackError → Option Nat
  | lex e => some e.offset
  | scope e => some e.offset
  | encoding _ => none

def code : PackError → String
  | lex _ => "LEX_ERROR"
  | scope _ => "SCOPE_ERROR"
  | encoding _ => "ENCODING_ERROR"

def message : PackError → String
  | lex e => e.message
  | scope e => e.message
  | encoding e => e.message

end PackError

/-- A packed script and the map back to what it was made of. -/
structure Packed where
  code : String
  sourceMap : SourceMap
  deriving DecidableEq, Repr

def Options.privateNames (o : Options) (protectedNames : ProtectedNames) (tokens : List Token) :
    PrivateNames :=
  if o.renamePrivate then .collect tokens o.privateMark protectedNames else .empty

def Options.replacements (o : Options) (protectedNames : ProtectedNames) (tokens : List Token) :
    Except ScopeError Replacements := do
  let privateNames := o.privateNames protectedNames tokens
  if o.shrinkVars then
    let tree ← ScopeTree.ofTokens tokens
    return renameAll tokens tree protectedNames privateNames
  else return privateNames.replacements tokens

def Options.encoder (o : Options) : Except EncodingError (Option Encoder) :=
  if o.base62 then (Encoder.ofPattern o.radix.toNat o.wordPattern).map some else .ok none

/-- Packs a script. Nothing maps into a text that is packed with a dictionary. -/
def pack (protectedNames : ProtectedNames) (o : Options) (source : String) :
    Except PackError Packed := do
  let encoder ← o.encoder.mapError .encoding
  let tokens ← (tokenize source).mapError .lex
  let replaced ← (o.replacements (protectedNames.add o.protectedNames) tokens).mapError .scope
  let laidOut := compact tokens replaced
  let (code, mappings) ←
    match encoder with
    | some e => (e.encode laidOut.code).mapError .encoding |>.map fun code => (code, [])
    | none => .ok (laidOut.code, laidOut.mappings)
  let files := o.sourceFiles.entries.map fun f => (⟨f.1, f.2.toNat⟩ : SourceMap.File)
  return { code := code
           sourceMap := .build source code files mappings o.outputFile o.lineOffset.toNat }

end Minify
