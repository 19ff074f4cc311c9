import Dossier.Glob.Pattern

/-!
# Matching glob patterns

A pattern matches a whole path, in bytes: one unit of a path is one byte, and so is what a
class stands for. Matching goes token by token and keeps all the places where what has
been matched may end; each place is the rest of the path from there. A pattern that is
nothing but leading directories matches every path.

An alternative that is empty, or made of such alternatives only, is passed over.
-/

namespace Dossier.Glob

/-- The bytes of a character. -/
def bytesOf (c : Char) : List UInt8 :=
  String.utf8EncodeChar c

/-- The bytes of a path. -/
def pathBytes (path : String) : List UInt8 :=
  path.toList.flatMap bytesOf

/-- The byte of a slash. -/
def slashByte : UInt8 := 47

/-- What follows some bytes at the head of a path. -/
def dropBytes? : (bs path : List UInt8) → Option (List UInt8)
  | [], path => some path
  | _ :: _, [] => none
  | b :: bs, p :: path => if b = p then dropBytes? bs path else none

/-- The ranges of bytes that a range of characters stands for: the last byte of its start
and the first of its end make a range, all their other bytes stand for themselves. -/
def byteRanges (range : Char × Char) : List (UInt8 × UInt8) :=
  let first := bytesOf range.1
  let last := bytesOf range.2
  if range.1 = range.2 then first.map fun b => (b, b)
  else
    first.dropLast.map (fun b => (b, b)) ++ [(first.getLastD 0, last.headD 0)] ++
      last.tail.map fun b => (b, b)

/-- Whether a byte belongs to a class. -/
def inClass (negated : Bool) (ranges : List (Char × Char)) (b : UInt8) : Bool :=
  ((ranges.flatMap byteRanges).any fun r => r.1 ≤ b && b ≤ r.2) != negated

/-- All rests of a path, the path itself first. -/
def allRests : List UInt8 → List (List UInt8)
  | [] => [[]]
  | b :: bs => (b :: bs) :: allRests bs

/-- The rests of a path after each of its slashes. -/
def restsAfterSlash : List UInt8 → List (List UInt8)
  | [] => []
  | b :: bs => if b = slashByte then bs :: restsAfterSlash bs else restsAfterSlash bs

/-- A place added to others, unless it is there. -/
def addPlace (place : List UInt8) (places : List (List UInt8)) : List (List UInt8) :=
  if places.any fun p => p.length == place.length then places else place :: places

/-- Places without repetitions. All are rests of one path, so they are told apart by their
lengths. -/
def distinctPlaces (places : List (List UInt8)) : List (List UInt8) :=
  places.foldr addPlace []

mutual

/-- Whether a token stands for nothing at all. -/
def Token.isVoid : Token → Bool
  | .choice alternatives => allVoid alternatives
  | _ => false

/-- Whether all tokens stand for nothing at all. -/
def isVoid : List Token → Bool
  | [] => true
  | t :: ts => t.isVoid && isVoid ts

/-- Whether all alternatives stand for nothing at all. -/
def allVoid : List (List Token) → Bool
  | [] => true
  | a :: as => isVoid a && allVoid as

end

mutual

/-- The places where a token may end that begins at one of some places. -/
def Token.ends : Token → List (List UInt8) → List (List UInt8)
  | .literal c, places => places.filterMap (dropBytes? (bytesOf c))
  | .anyOne, places => places.filterMap List.tail?
  | .anyRun, places => places.flatMap allRests
  | .leadingDirectories, places => places.flatMap fun p => p :: restsAfterSlash p
  | .trailingDirectories, places => (places.filterMap (dropBytes? [slashByte])).flatMap allRests
  | .innerDirectories, places =>
    (places.filterMap (dropBytes? [slashByte])).flatMap fun p => p :: restsAfterSlash p
  | .oneOf negated ranges, places =>
    (places.filter fun p => (p.head?.map (inClass negated ranges)).getD false).filterMap List.tail?
  | .choice alternatives, places =>
    if allVoid alternatives then places else anyEnds alternatives places

/-- The places where tokens may end that begin at one of some places. -/
def ends : List Token → List (List UInt8) → List (List UInt8)
  | [], places => places
  | t :: ts, places => ends ts (distinctPlaces (t.ends places))

/-- The places where one of several alternatives may end that begins at one of some
places. -/
def anyEnds : List (List Token) → List (List UInt8) → List (List UInt8)
  | [], _ => []
  | a :: as, places => (if isVoid a then [] else ends a places) ++ anyEnds as places

end

/-- **Whether a pattern matches a path.** -/
def Pattern.matches (p : Pattern) (path : String) : Bool :=
  match p with
  | [.leadingDirectories] => true
  | _ => (ends p [pathBytes path]).any List.isEmpty

end Dossier.Glob
