import Dossier.Json.Fields
import Dossier.Json.Parser
import Dossier.Record.Basic
import Dossier.Text.Blank
import Dossier.Text.Slice

/-!
# Replies of the model

A reply is searched for the first text in balanced curly brackets, where brackets within
string literals do not count. What is found has to be a JSON object with the three
sections of a narrative and a list of recommendations. None of them may be blank; blank
recommendations are passed over as long as one is left.

What is wrong with a text that is no JSON is said in the words of whatever decodes it, which are not
fixed here.
-/

namespace Dossier.Synthesis

/-- Why a reply is of no use. -/
inductive ReplyError where
  | noObject
  /-- What was found cannot be decoded, with what the decoder says. -/
  | malformed (message : String)
  | missingSection (name : String)
deriving DecidableEq, Repr, Inhabited

/-- The reason in words. -/
def ReplyError.text : ReplyError → String
  | noObject => "reply contains no JSON object"
  | malformed message => "reply is not valid JSON: " ++ message
  | missingSection name => "reply is missing section `" ++ name ++ "`"

/-- What is said of what cannot be decoded. -/
structure Decoder where
  /-- Of a text that is no JSON. -/
  syntaxMessage : String → String
  /-- Of a value whose sections are not of the right kinds. -/
  shapeMessage : Json → String
deriving Inhabited

/-- The content of a reply. -/
structure Sections where
  narrative : Narrative
  recommendations : List String
deriving DecidableEq, Repr, Inhabited

/-- Where a search for the end of an object is: how many brackets are open, and whether it
is inside a string literal, just after a backslash. -/
structure Scan where
  depth : Nat
  inString : Bool
  escaped : Bool
deriving DecidableEq, Repr, Inhabited

namespace Scan

/-- Before the first bracket. -/
def start : Scan :=
  ⟨0, false, false⟩

/-- What comes of reading one character. -/
inductive Move where
  | onward (s : Scan)
  /-- The bracket that closes the last one open. -/
  | close
  /-- A bracket that closes where none is open. -/
  | underflow
deriving DecidableEq, Repr, Inhabited

/-- Reads one character. -/
def read (s : Scan) (c : Char) : Move :=
  if s.inString then
    if s.escaped then .onward { s with escaped := false }
    else if c == '\\' then .onward { s with escaped := true }
    else if c == '"' then .onward { s with inString := false }
    else .onward s
  else if c == '"' then .onward { s with inString := true }
  else if c == '\x7b' then .onward { s with depth := s.depth + 1 }
  else if c == '\x7d' then
    match s.depth with
    | 0 => .underflow
    | 1 => .close
    | depth + 2 => .onward { s with depth := depth + 1 }
  else .onward s

end Scan

/-- What a search for the end of an object ends at. -/
inductive SearchEnd where
  /-- The bracket before which there are so many bytes. -/
  | closed (offset : Nat)
  /-- The end of the text. -/
  | unclosed
  /-- A bracket that closes where none is open. -/
  | underflow
deriving DecidableEq, Repr, Inhabited

/-- Searches for the end of an object, so many bytes after its start. -/
def search : Scan → Nat → List Char → SearchEnd
  | _, _, [] => .unclosed
  | s, offset, c :: cs =>
    match s.read c with
    | .onward s => search s (offset + c.utf8Size) cs
    | .close => .closed offset
    | .underflow => .underflow

/-- The text before the first bracket. -/
def proseOf (text : String) : List Char :=
  text.toList.takeWhile (· != '\x7b')

/-- The end of the object that begins at the first bracket. -/
def endOf (text : String) : SearchEnd :=
  search .start 0 (text.toList.dropWhile (· != '\x7b'))

/-- **The first text in balanced curly brackets.** It is cut out at offsets in bytes; at a bracket
that closes where none is open the search would have no result. -/
def firstObject? (text : String) : Option String :=
  match endOf text with
  | .closed offset =>
    let start := Text.byteSize (proseOf text)
    Text.slice? start (start + offset + 1) text
  | .unclosed | .underflow => none

/-- The names of the sections, in order. -/
def sectionNames : List String :=
  ["intent_summary", "dependency_overview", "risk_assessment", "refactoring_recommendations"]

/-- Whether a section has some content: text that is not blank, or any items. -/
def hasContent : Option Json → Bool
  | some (.string s) => !Text.isAllBlank s
  | some (.array xs) => !xs.isEmpty
  | _ => false

/-- The sections of an object. -/
def sectionsOf (d : Decoder) (v : Json) : Except ReplyError Sections :=
  match sectionNames.find? fun n => !hasContent (v.get? n) with
  | some missing => .error (.missingSection missing)
  | none =>
    match (v.get? "intent_summary").bind Json.string?,
        (v.get? "dependency_overview").bind Json.string?,
        (v.get? "risk_assessment").bind Json.string?,
        (v.get? "refactoring_recommendations").bind Json.strings? with
    | some intent, some dependencies, some risk, some recommendations =>
      let kept := (recommendations.map Text.trim).filter fun r => !r.isEmpty
      if kept.isEmpty then .error (.missingSection "refactoring_recommendations")
      else .ok ⟨⟨Text.trim intent, Text.trim dependencies, Text.trim risk⟩, kept⟩
    | _, _, _, _ => .error (.malformed (d.shapeMessage v))

/-- **Reads a reply.** -/
def readReply (d : Decoder) (reply : String) : Except ReplyError Sections :=
  match firstObject? reply with
  | none => .error .noObject
  | some object =>
    match Json.parse? object with
    | none => .error (.malformed (d.syntaxMessage object))
    | some v => sectionsOf d v

end Dossier.Synthesis
