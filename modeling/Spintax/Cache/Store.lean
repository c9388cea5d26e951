import Spintax.Template.Tree

namespace Spintax.Cache

/-- A template and the number of the parse that made it. -/
structure Parse where
  serial : Nat
  template : Template

/-- A parse that is kept for its text since a certain moment. Of two entries, the
one with the larger `lastUse` was used later. -/
structure Entry where
  text : String
  parse : Parse
  since : Nat
  lastUse : Nat

namespace Entry

def isExpired (maxAge now : Nat) (e : Entry) : Bool :=
  maxAge ≤ now - e.since

def touch (tick : Nat) (e : Entry) : Entry :=
  { e with lastUse := max e.lastUse tick }

/-- Put the entry in the place of the one for the same text, or at the end. -/
def place (e : Entry) : List Entry → List Entry
  | [] => [e]
  | d :: ds => if d.text = e.text then e :: ds else d :: e.place ds

def oldest? : List (UInt32 × Entry) → Option (UInt32 × Entry)
  | [] => none
  | e :: es =>
    match oldest? es with
    | none => some e
    | some d => if e.2.lastUse ≤ d.2.lastUse then some e else some d

end Entry

/-- An order in which the entries of a store are gone through. It leaves none out. -/
structure Order where
  arrange : List (UInt32 × Entry) → List (UInt32 × Entry)
  perm : ∀ es, (arrange es).Perm es

def Order.asKept : Order := ⟨id, fun _ => .rfl⟩

/-- Buckets by fingerprint, and the number of entries in all of them. -/
structure Store where
  buckets : List (UInt32 × List Entry)
  size : Nat

namespace Store

def empty : Store := ⟨[], 0⟩

def bucket (s : Store) (key : UInt32) : List Entry :=
  (s.buckets.lookup key).getD []

def find? (s : Store) (key : UInt32) (text : String) : Option Entry :=
  (s.bucket key).find? (·.text = text)

def entries (s : Store) : List (UInt32 × Entry) :=
  s.buckets.flatMap fun b => b.2.map fun e => (b.1, e)

def keep (key : UInt32) : List Entry → List (UInt32 × List Entry)
  | [] => []
  | e :: es => [(key, e :: es)]

def alter (key : UInt32) (f : List Entry → List Entry) :
    List (UInt32 × List Entry) → List (UInt32 × List Entry)
  | [] => keep key (f [])
  | b :: bs => if b.1 = key then keep key (f b.2) ++ bs else b :: alter key f bs

def touch (s : Store) (key : UInt32) (text : String) (tick : Nat) : Store :=
  { s with
    buckets := alter key (List.map fun e => if e.text = text then e.touch tick else e) s.buckets }

def insert (s : Store) (key : UInt32) (e : Entry) : Store where
  buckets := alter key e.place s.buckets
  size := if (s.find? key e.text).isSome then s.size else s.size + 1

def remove? (s : Store) (key : UInt32) (text : String) : Option Store :=
  if (s.find? key text).isSome then
    some ⟨alter key (List.filter (·.text ≠ text)) s.buckets, s.size - 1⟩
  else none

def removeAll : List (UInt32 × Entry) → Store → Nat × Store
  | [], s => (0, s)
  | e :: es, s =>
    match s.remove? e.1 e.2.text with
    | some s =>
      let (n, s) := removeAll es s
      (n + 1, s)
    | none => removeAll es s

end Store

end Spintax.Cache
