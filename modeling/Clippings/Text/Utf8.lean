/-!
# UTF-8

Octets as characters.  Where octets are no characters, the longest run that could have begun one is
taken as one piece, so that reading can go on after it.
-/

namespace Clippings
namespace Text
namespace Utf8

/-- What the first octets of a text are. -/
inductive Head where
  | char (c : Char) (width : Nat)
  | invalid (width : Nat)
  /-- The text ends inside a character. -/
  | incomplete
deriving DecidableEq, Repr

def isTrailing (b : Nat) : Bool :=
  0x80 ≤ b && b < 0xc0

/-- The bounds of the second octet after a first one that starts three or four octets. -/
def secondBounds (first : Nat) : Nat × Nat :=
  if first == 0xe0 then (0xa0, 0xbf)
  else if first == 0xed then (0x80, 0x9f)
  else if first == 0xf0 then (0x90, 0xbf)
  else if first == 0xf4 then (0x80, 0x8f)
  else (0x80, 0xbf)

def low6 (b : Nat) : Nat :=
  b % 64

def twoOctets (a : Nat) : List UInt8 -> Head
  | [] => .incomplete
  | b :: _ =>
    if isTrailing b.toNat then .char (Char.ofNat (a % 32 * 64 + low6 b.toNat)) 2 else .invalid 1

def threeOctets (a : Nat) : List UInt8 -> Head
  | [] => .incomplete
  | b :: rest =>
    let (low, high) := secondBounds a
    if b.toNat < low || high < b.toNat then .invalid 1
    else
      match rest with
      | [] => .incomplete
      | c :: _ =>
        if isTrailing c.toNat then
          .char (Char.ofNat (a % 16 * 4096 + low6 b.toNat * 64 + low6 c.toNat)) 3
        else .invalid 2

def fourOctets (a : Nat) : List UInt8 -> Head
  | [] => .incomplete
  | b :: rest =>
    let (low, high) := secondBounds a
    if b.toNat < low || high < b.toNat then .invalid 1
    else
      match rest with
      | [] => .incomplete
      | c :: rest =>
        if !isTrailing c.toNat then .invalid 2
        else
          match rest with
          | [] => .incomplete
          | d :: _ =>
            if isTrailing d.toNat then
              .char (Char.ofNat (a % 8 * 262144 + low6 b.toNat * 4096 + low6 c.toNat * 64 +
                low6 d.toNat)) 4
            else .invalid 3

def head (first : UInt8) (rest : List UInt8) : Head :=
  let a := first.toNat
  if a < 0x80 then .char (Char.ofNat a) 1
  else if 0xc2 ≤ a && a < 0xe0 then twoOctets a rest
  else if 0xe0 ≤ a && a < 0xf0 then threeOctets a rest
  else if 0xf0 ≤ a && a < 0xf5 then fourOctets a rest
  else .invalid 1

/-- Why octets are no text, and after how many that shows. -/
inductive Fault where
  | invalid (width offset : Nat)
  | incomplete (offset : Nat)
deriving DecidableEq, Repr

def Fault.message : Fault -> String
  | invalid width offset =>
    "invalid utf-8 sequence of " ++ toString width ++ " bytes from index " ++ toString offset
  | incomplete offset => "incomplete utf-8 byte sequence from index " ++ toString offset

/-- The characters of a text, `done` being those before, the last one first. -/
def decodeFrom (offset : Nat) (done : List Char) (octets : List UInt8) :
    Except Fault (List Char) :=
  match octets with
  | [] => .ok done.reverse
  | first :: rest =>
    match head first rest with
    | .char c width => decodeFrom (offset + width) (c :: done) (rest.drop (width - 1))
    | .invalid width => .error (.invalid width offset)
    | .incomplete => .error (.incomplete offset)
termination_by octets.length
decreasing_by
  simp only [List.length_drop, List.length_cons]
  omega

def decode (octets : List UInt8) : Except Fault (List Char) :=
  decodeFrom 0 [] octets

def encode (text : List Char) : List UInt8 :=
  text.flatMap String.utf8EncodeChar

/-- A character, or octets that are none. -/
inductive Piece where
  | char (c : Char)
  | broken (octets : List UInt8)
deriving DecidableEq, Repr

def pieces (octets : List UInt8) : List Piece :=
  match octets with
  | [] => []
  | first :: rest =>
    match head first rest with
    | .char c width => .char c :: pieces (rest.drop (width - 1))
    | .invalid width => .broken (octets.take width) :: pieces (rest.drop (width - 1))
    | .incomplete => [.broken octets]
termination_by octets.length
decreasing_by
  all_goals simp only [List.length_drop, List.length_cons]
  all_goals omega

def Piece.shown : Piece -> Char
  | char c => c
  | broken _ => '\ufffd'

/-- The text with a replacement character for every broken piece. -/
def lossy (octets : List UInt8) : String :=
  String.ofList ((pieces octets).map Piece.shown)

end Utf8
end Text
end Clippings
