/-
Everything that can go wrong, as a cause. A fault may stand in a context, and a failure of a whole
run names the directory it was for. The wording is one function.
-/
import DocAtlas.Edit.Patch
import DocAtlas.Edit.Splice
import DocAtlas.Files.OsError
import DocAtlas.Source.ParseFault
import DocAtlas.Text.Quoted

namespace DocAtlas

inductive Fault where
  | parse (f : ParseFault)
  | outOfRange (e : Insertion.OutOfRange)
  | notInsertion (e : Patch.NotInsertion)
  | os (e : OsError)
  /-- No grammar was named. -/
  | unknownLanguage
  /-- The extension of a path calls for no grammar. -/
  | unsupportedExtension (path : Text)
  /-- The same, found when extracting. -/
  | unsupportedFile (path : Text)
  /-- The grammar gave no tree. -/
  | noTree (language : Text)
  /-- There are no queries of this name for the language. -/
  | noQueries (query language : Text)
  | unknownQuery (number : Int)
  | invalidGlob (pattern : Text)
  | rootNotDirectory (root : Text)
  /-- The run was cancelled. -/
  | interrupted (what : Text)
  | symbolNotFound (name : Text)
  /-- A document of the knowledge base is missing in a directory. -/
  | notGenerated (document dir : Text)
  /-- The text is not JSON. -/
  | jsonSyntax
  /-- The text is JSON of another shape. -/
  | jsonShape
  /-- The text is not YAML. -/
  | yamlSyntax
  /-- The text is YAML of another shape. -/
  | yamlShape (complaints : List Text)
  /-- A document that is no value at all cannot take an entry. -/
  | nullDocument
  /-- A cache of `count` files takes no more. -/
  | cacheFull (count : Nat) (limit : Int)
  /-- The bytes asked for end before they start. -/
  | byteRange (start stop : Nat)
  /-- The bytes asked for end after the file. -/
  | bytesBeyond (start stop size : Nat) (path : Text)
  /-- The lines asked for end before they start. -/
  | lineRange (first last : Int)
  /-- The lines asked for start after the file. -/
  | lineBeyond (line : Int) (path : Text)
  /-- A plain statement of what is wrong. -/
  | plain (what : Text)
  /-- A fault in a context. -/
  | during (context : Text) (cause : Fault)
  /-- A fault with advice after it. -/
  | advised (cause : Fault) (advice : Text)
  /-- A whole run failed. -/
  | batch (root : Text) (cause : Fault)
deriving Repr

namespace Fault

def message : Fault → Text
  | parse f => f.message
  | outOfRange e => e.message
  | notInsertion e => e.message
  | os e => e.message
  | unknownLanguage => "cannot parse unknown language"
  | unsupportedExtension path => "unsupported file extension: " ++ path
  | unsupportedFile path => "unsupported language for file: " ++ path
  | noTree language => "parser returned nil tree for " ++ language ++ " source"
  | noQueries query language => "unsupported language for " ++ query ++ " queries: " ++ language
  | unknownQuery n => "unknown query type: " ++ Text.ofInt n
  | invalidGlob pattern => "invalid glob pattern: " ++ pattern
  | rootNotDirectory root => "root " ++ root ++ " is not a directory"
  | interrupted what => what ++ " interrupted: context canceled"
  | symbolNotFound name => "symbol not found: " ++ name
  | notGenerated document dir => "knowledge base not generated: " ++ document ++ " missing in " ++ dir
  | jsonSyntax => "<json syntax error>"
  | jsonShape => "<json type error>"
  | yamlSyntax => "<yaml syntax error>"
  | yamlShape complaints => "yaml: unmarshal errors:\n  " ++ Text.joinWith "\n  " complaints
  | nullDocument => "assignment to entry in nil map"
  | cacheFull count limit =>
    "file cache full: " ++ Text.ofNat count ++ " files (limit " ++ Text.ofInt limit ++ ")"
  | byteRange start stop => "invalid byte range " ++ Text.ofNat start ++ ".." ++ Text.ofNat stop
  | bytesBeyond start stop size path =>
    "byte range " ++ Text.ofNat start ++ ".." ++ Text.ofNat stop ++ " exceeds size " ++ Text.ofNat size ++
      " of " ++ Text.quoted path
  | lineRange first last => "invalid line range " ++ Text.ofInt first ++ ".." ++ Text.ofInt last
  | lineBeyond line path => "line " ++ Text.ofInt line ++ " beyond end of " ++ Text.quoted path
  | plain what => what
  | during context cause => context ++ ": " ++ message cause
  | advised cause advice => message cause ++ ": " ++ advice
  | batch root cause => "scan " ++ root ++ ": " ++ message cause

/-- The place of a malformed source, if that is the cause. -/
def parseFault? : Fault → Option ParseFault
  | parse f => some f
  | during _ cause => parseFault? cause
  | advised cause _ => parseFault? cause
  | batch _ cause => parseFault? cause
  | _ => none

/-- Whether a whole run failed. -/
def isBatch : Fault → Bool
  | batch _ _ => true
  | during _ cause => isBatch cause
  | advised cause _ => isBatch cause
  | _ => false

/-- Whether the cause is a name nothing declares. -/
def isSymbolNotFound : Fault → Bool
  | symbolNotFound _ => true
  | during _ cause => isSymbolNotFound cause
  | advised cause _ => isSymbolNotFound cause
  | batch _ cause => isSymbolNotFound cause
  | _ => false

/-- Whether the cause is a knowledge base that is not there. -/
def isNotGenerated : Fault → Bool
  | notGenerated _ _ => true
  | during _ cause => isNotGenerated cause
  | advised cause _ => isNotGenerated cause
  | batch _ cause => isNotGenerated cause
  | _ => false

end Fault

end DocAtlas
