import Clippings.Decimal.Shortest

/-!
# Values

What a document says once styles, anchors and comments are gone.  A mapping is a list of entries in
the order of the document.  `same` is the equality by which keys are told apart: it does not look at
the order of entries inside a mapping, and takes numbers and tags by what they mean.
-/

namespace Clippings
namespace Yaml

/-- A local tag without its exclamation mark. -/
structure Tag where
  name : String
deriving DecidableEq, Repr

namespace Tag

/-- One exclamation mark in front of a name is not part of it, unless it is all there is. -/
def ofText (text : String) : Tag :=
  match text.toList with
  | '!' :: c :: rest => ⟨String.ofList (c :: rest)⟩
  | _ => ⟨text⟩

def text (t : Tag) : String :=
  "!" ++ t.name

end Tag

inductive Value where
  | null
  | bool (b : Bool)
  | int (i : Int)
  | float (x : Binary64)
  | str (s : String)
  | seq (items : List Value)
  | map (entries : List (Value × Value))
  | tagged (tag : Tag) (value : Value)
deriving Repr

namespace Value

mutual
def same : Value -> Value -> Bool
  | null, null => true
  | bool a, bool b => a == b
  | int a, int b => a == b
  | float a, float b => a.sameValue b
  | str a, str b => a == b
  | seq xs, seq ys => sameItems xs ys
  | map xs, map ys => xs.length == ys.length && sameEntries xs ys
  | tagged s x, tagged t y => s == t && same x y
  | _, _ => false
def sameItems : List Value -> List Value -> Bool
  | [], [] => true
  | x :: xs, y :: ys => same x y && sameItems xs ys
  | _, _ => false
/-- Every entry of the first list is in the second one. -/
def sameEntries : List (Value × Value) -> List (Value × Value) -> Bool
  | [], _ => true
  | (k, v) :: xs, ys => ys.any (fun (l, w) => same k l && same v w) && sameEntries xs ys
end

def untag : Value -> Value
  | tagged _ v => untag v
  | v => v

def isNull (v : Value) : Bool :=
  match v.untag with
  | null => true
  | _ => false

end Value

/-- A mapping by itself, its entries in order. -/
abbrev Entries :=
  List (Value × Value)

namespace Entries

def has (entries : Entries) (key : Value) : Bool :=
  entries.any fun (k, _) => k.same key

/-- The value under a plain string key. -/
def get? (entries : Entries) (key : String) : Option Value :=
  match entries with
  | [] => none
  | (.str k, v) :: rest => if k == key then some v else get? rest key
  | _ :: rest => get? rest key

/-- Takes the entry of a plain string key out. -/
def remove (entries : Entries) (key : String) : Option Value × Entries :=
  match entries with
  | [] => (none, [])
  | (.str k, v) :: rest =>
    if k == key then (some v, rest)
    else
      let (found, left) := remove rest key
      (found, (.str k, v) :: left)
  | entry :: rest =>
    let (found, left) := remove rest key
    (found, entry :: left)

/-- Puts a value under a key, in the place of an equal key if there is one. -/
def insert (entries : Entries) (key value : Value) : Entries :=
  match entries with
  | [] => [(key, value)]
  | (k, v) :: rest => if k.same key then (k, value) :: rest else (k, v) :: insert rest key value

end Entries
end Yaml
end Clippings
