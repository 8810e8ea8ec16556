/-!
# Chronicle.StreamId

A stream is a named part of the log: `Account/A` is the stream `A` of category `Account`. The text
form is read by splitting at the first slash, so a key may hold further slashes and a category may
not.
-/

namespace Chronicle

/-- The address of a stream. Neither part is restricted. -/
structure StreamId where
  category : String
  key : String
  deriving DecidableEq

namespace StreamId

/-- Why a text is no stream address. -/
inductive ParseError where
  /-- The text has no slash. -/
  | noSlash (text : String)
  /-- One of the two parts is empty. -/
  | emptyPart
  deriving DecidableEq

def ParseError.message : ParseError → String
  | .noSlash text => "Invalid stream ID: expected \"type/id\", got \"" ++ text ++ "\""
  | .emptyPart => "Invalid stream ID: Stream type and id cannot be empty"

def render (s : StreamId) : String := s.category ++ "/" ++ s.key

/-- Reads the text form. The first slash separates the parts, and both have to be non-empty. -/
def parse (text : String) : Except ParseError StreamId :=
  match text.toList.dropWhile (· != '/') with
  | [] => .error (.noSlash text)
  | _ :: key =>
    let category := text.toList.takeWhile (· != '/')
    if category.isEmpty || key.isEmpty then .error .emptyPart
    else .ok ⟨String.ofList category, String.ofList key⟩

def isOf (s : StreamId) (category : String) : Bool := s.category == category

/-- By category, then by key, each in code point order. -/
def le (a b : StreamId) : Bool :=
  decide (a.category < b.category) || (a.category == b.category && decide (a.key ≤ b.key))

def sort (streams : List StreamId) : List StreamId := streams.mergeSort le

/-- Pairs in the order of the addresses that they begin with. -/
def sortPairs {α : Type} (pairs : List (StreamId × α)) : List (StreamId × α) :=
  pairs.mergeSort fun a b => le a.1 b.1

end StreamId

end Chronicle
