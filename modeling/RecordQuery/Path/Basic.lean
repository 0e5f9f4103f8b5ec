import RecordQuery.Value.Basic
/-! Accessor paths: chains of member names and bracketed indices and keys, with their text. -/

namespace RecordQuery

inductive Segment where
  | name (name : String)
  | index (index : Int64)
  | key (key : String)
deriving DecidableEq

namespace Segment

def isBracket : Segment → Bool
  | name _ => false
  | index _ | key _ => true

def text : Segment → String
  | name n => n
  | index i => "[" ++ toString i.toInt ++ "]"
  | key k => "['" ++ k ++ "']"

end Segment

/-- A path as it was written, with its segments. -/
structure AccessorPath where
  text : String
  segments : List Segment
deriving DecidableEq

/-- The text of segments that follow another one: a dot before each name. -/
def continuationText : List Segment → String
  | [] => ""
  | segment :: rest => (if segment.isBracket then "" else ".") ++ segment.text ++ continuationText rest

/-- The path of given segments, written in the plainest way. -/
def AccessorPath.ofSegments (segments : List Segment) : AccessorPath :=
  { text := match segments with
      | [] => ""
      | first :: rest => first.text ++ continuationText rest
    segments }

end RecordQuery
