import Spintax.Entries
import Spintax.Json.Token
import Spintax.Text.Quoted

namespace Spintax.Json

inductive Found where
  | null
  | bool (b : Bool)
  | number (n : Number)
  | text (s : String)
  | list
  | object
deriving DecidableEq, Repr

/-- How the value that a text writes fails to be of the wanted type. -/
inductive Mismatch where
  | missing (field : String)
  | duplicate (field : String)
  | wrongType (found : Found) (wanted : String)
  | wrongValue (n : Int) (wanted : String)
  | wrongLength (length : Nat) (wanted : String)
deriving DecidableEq, Repr

inductive ReadError where
  | malformed (m : Malformation)
  | mismatch (m : Mismatch)
deriving DecidableEq, Repr

def Found.describe : Found → String
  | null => "null"
  | bool b => if b then "boolean `true`" else "boolean `false`"
  | number (.integer n) => "integer `" ++ toString n ++ "`"
  | number n => "floating point `" ++ n.describe ++ "`"
  | text s => "string " ++ Text.quoted s
  | list => "sequence"
  | object => "map"

def Mismatch.message : Mismatch → String
  | missing field => "missing field `" ++ field ++ "`"
  | duplicate field => "duplicate field `" ++ field ++ "`"
  | wrongType found wanted => "invalid type: " ++ found.describe ++ ", expected " ++ wanted
  | wrongValue n wanted =>
    "invalid value: integer `" ++ toString n ++ "`, expected " ++ wanted
  | wrongLength length wanted => "invalid length " ++ toString length ++ ", expected " ++ wanted

/-- Tokens that are left after at least one of `ts` is read. -/
abbrev Rest (ts : List Token) := { rs : List Token // rs.length < ts.length }

abbrev Reader (α : Type) := (ts : List Token) → Except ReadError (α × Rest ts)

namespace Rest

def one (t : Token) (ts : List Token) : Rest (t :: ts) :=
  ⟨ts, by simp⟩

def trans {ts : List Token} (r : Rest ts) (s : Rest r.1) : Rest ts :=
  ⟨s.1, Nat.lt_trans s.2 r.2⟩

end Rest

def unwanted (wanted : String) : Token → ReadError
  | .null => .mismatch (.wrongType .null wanted)
  | .bool b => .mismatch (.wrongType (.bool b) wanted)
  | .number (some n) => .mismatch (.wrongType (.number n) wanted)
  | .number none => .malformed .hugeNumber
  | .text s => .mismatch (.wrongType (.text s) wanted)
  | .brokenText m => .malformed m
  | .openList => .mismatch (.wrongType .list wanted)
  | .openObject => .mismatch (.wrongType .object wanted)
  | .fault m _ => .malformed m
  | _ => .malformed .valueWanted

def nameFault : Token → Malformation
  | .brokenText m => m
  | .fault m _ => m.inName
  | _ => .nameWanted

namespace Reader

variable {α σ : Type}

def map {β : Type} (f : α → β) (read : Reader α) : Reader β :=
  fun ts => (read ts).map fun (a, r) => (f a, r)

def text : Reader String
  | [] => .error (.malformed .endInValue)
  | .text s :: ts => .ok (s, .one _ ts)
  | t :: _ => .error (unwanted "a string" t)

def natural : Reader Nat
  | [] => .error (.malformed .endInValue)
  | .number (some (.integer n)) :: ts =>
    if 0 ≤ n then .ok (n.toNat, .one _ ts) else .error (.mismatch (.wrongValue n "usize"))
  | t :: _ => .error (unwanted "usize" t)

def optional (read : Reader α) : Reader (Option α)
  | .null :: ts => .ok (none, .one _ ts)
  | ts => (read ts).map fun (a, r) => (some a, r)

def nextItem (read : Reader α) : Reader α
  | .closeList :: _ => .error (.malformed .trailingComma)
  | ts => read ts

def item? (read : Reader α) (first : Bool) :
    (ts : List Token) → Except ReadError (Option (α × Rest ts))
  | [] => .error (.malformed .endInList)
  | .closeList :: _ => .ok none
  | .comma :: ts =>
    if first then .error (.malformed .valueWanted)
    else (nextItem read ts).map fun (a, r) => some (a, (Rest.one _ ts).trans r)
  | ts => if first then (read ts).map some else .error (.malformed .listEndWanted)

def closeList : Reader Unit
  | [] => .error (.malformed .endInList)
  | .closeList :: ts => .ok ((), .one _ ts)
  | .comma :: .closeList :: _ => .error (.malformed .trailingComma)
  | _ => .error (.malformed .trailingText)

def items (read : Reader α) (first : Bool) (ts : List Token) :
    Except ReadError (List α × Rest ts) :=
  match item? read first ts with
  | .error e => .error e
  | .ok none => (closeList ts).map fun (_, r) => ([], r)
  | .ok (some (a, r)) => (items read false r.1).map fun (as, s) => (a :: as, r.trans s)
termination_by ts.length
decreasing_by exact r.2

def list (read : Reader α) : Reader (List α)
  | [] => .error (.malformed .endInValue)
  | .openList :: ts => (items read true ts).map fun (as, r) => (as, (Rest.one _ ts).trans r)
  | t :: _ => .error (unwanted "a sequence" t)

def value (read : Reader α) : Reader α
  | [] => .error (.malformed .endInObject)
  | .colon :: ts => (read ts).map fun (a, r) => (a, (Rest.one _ ts).trans r)
  | _ => .error (.malformed .colonWanted)

def name : Reader String
  | [] => .error (.malformed .endInValue)
  | .text k :: ts => .ok (k, .one _ ts)
  | .closeObject :: _ => .error (.malformed .trailingComma)
  | t :: _ => .error (.malformed (nameFault t))

def name? (first : Bool) : (ts : List Token) → Except ReadError (Option (String × Rest ts))
  | [] => .error (.malformed .endInObject)
  | .closeObject :: _ => .ok none
  | .comma :: ts =>
    if first then .error (.malformed .nameWanted)
    else (name ts).map fun (k, r) => some (k, (Rest.one _ ts).trans r)
  | ts => if first then (name ts).map some else .error (.malformed .objectEndWanted)

def closeObject : Reader Unit
  | [] => .error (.malformed .endInObject)
  | .closeObject :: ts => .ok ((), .one _ ts)
  | _ => .error (.malformed .trailingText)

/-- The remaining members of an object and its closing brace. `member` says how
to read the value of a name on top of what was read so far. -/
def members (member : σ → String → Except ReadError (Reader σ)) (s : σ) (first : Bool)
    (ts : List Token) : Except ReadError (σ × Rest ts) :=
  match name? first ts with
  | .error e => .error e
  | .ok none => (closeObject ts).map fun (_, r) => (s, r)
  | .ok (some (k, r)) =>
    match member s k with
    | .error e => .error e
    | .ok read =>
      match read.value r.1 with
      | .error e => .error e
      | .ok (s, r') => (members member s false (r.trans r').1).map fun (s, r'') =>
          (s, (r.trans r').trans r'')
termination_by ts.length
decreasing_by exact (r.trans r').2

def positions (field : σ → Nat → Option (Reader σ)) (s : σ) (n : Nat) (ts : List Token) :
    Except ReadError (σ × Rest ts) :=
  match field s n with
  | none => (closeList ts).map fun (_, r) => (s, r)
  | some read =>
    match item? read (n = 0) ts with
    | .error e => .error e
    | .ok none => (closeList ts).map fun (_, r) => (s, r)
    | .ok (some (s, r)) => (positions field s (n + 1) r.1).map fun (s, r') => (s, r.trans r')
termination_by ts.length
decreasing_by exact r.2

def object (wanted : String) (member : σ → String → Except ReadError (Reader σ)) (s : σ) :
    Reader σ
  | [] => .error (.malformed .endInValue)
  | .openObject :: ts =>
    (members member s true ts).map fun (s, r) => (s, (Rest.one _ ts).trans r)
  | t :: _ => .error (unwanted wanted t)

def refine {β : Type} (f : α → Except ReadError β) (read : Reader α) : Reader β :=
  fun ts => (read ts).bind fun (a, r) => (f a).map fun b => (b, r)

/-- A record, written as an object or as the list of its fields. -/
def record (wanted : String) (member : σ → String → Except ReadError (Reader σ))
    (field : σ → Nat → Option (Reader σ)) (s : σ)
    (ofObject ofList : σ → Except ReadError α) : Reader α
  | .openList :: ts =>
    (positions field s 0 ts).bind fun (s, r) =>
      (ofList s).map fun a => (a, (Rest.one _ ts).trans r)
  | ts => refine ofObject (object wanted member s) ts

end Reader

inductive Bracket where
  | list
  | object
deriving DecidableEq, Repr

/-- What may come next in a value whose contents do not matter. -/
inductive Await where
  | value
  | valueOrEnd
  | name
  | nameOrEnd
  | colon
  | commaOrEnd
deriving DecidableEq, Repr

def endFault : List Bracket → Await → Malformation
  | _, .value => .endInValue
  | _, .valueOrEnd => .endInList
  | .list :: _, .commaOrEnd => .endInList
  | _, _ => .endInObject

def commaFault : List Bracket → Malformation
  | .list :: _ => .listEndWanted
  | _ => .objectEndWanted

def skippedValueFault : Token → Malformation
  | .fault _ m => m
  | _ => .valueWanted

def skippedNameFault : Token → Malformation
  | .fault _ m => m.inName
  | _ => .nameWanted

/-- What is left after a value of which `bs` are the open brackets, from the
inside out. -/
def skipFrom : List Bracket → Await → List Token → Except Malformation (List Token)
  | bs, await, [] => .error (endFault bs await)
  | bs, .colon, t :: ts => if t = .colon then skipFrom bs .value ts else .error .colonWanted
  | bs, .name, t :: ts =>
    match t with
    | .text _ | .brokenText _ => skipFrom bs .colon ts
    | _ => .error (skippedNameFault t)
  | bs, .nameOrEnd, t :: ts =>
    match t, bs with
    | .text _, bs | .brokenText _, bs => skipFrom bs .colon ts
    | .closeObject, _ :: [] => .ok ts
    | .closeObject, _ :: bs => skipFrom bs .commaOrEnd ts
    | _, _ => .error (skippedNameFault t)
  | bs, .commaOrEnd, t :: ts =>
    match t, bs with
    | .comma, .list :: _ => skipFrom bs .value ts
    | .comma, .object :: _ => skipFrom bs .name ts
    | .closeList, [.list] => .ok ts
    | .closeList, .list :: bs => skipFrom bs .commaOrEnd ts
    | .closeObject, [.object] => .ok ts
    | .closeObject, .object :: bs => skipFrom bs .commaOrEnd ts
    | _, _ => .error (commaFault bs)
  | bs, await, t :: ts =>
    match t, bs with
    | .openList, bs => skipFrom (.list :: bs) .valueOrEnd ts
    | .openObject, bs => skipFrom (.object :: bs) .nameOrEnd ts
    | .closeList, [_] => if await = .valueOrEnd then .ok ts else .error .valueWanted
    | .closeList, _ :: bs =>
      if await = .valueOrEnd then skipFrom bs .commaOrEnd ts else .error .valueWanted
    | .null, [] | .bool _, [] | .number _, [] | .text _, [] | .brokenText _, [] => .ok ts
    | .null, bs | .bool _, bs | .number _, bs | .text _, bs | .brokenText _, bs =>
      skipFrom bs .commaOrEnd ts
    | _, _ => .error (skippedValueFault t)

theorem skipFrom_length {bs : List Bracket} {await : Await} {ts rs : List Token}
    (h : skipFrom bs await ts = .ok rs) : rs.length < ts.length := by
  induction ts generalizing bs await with
  | nil => simp [skipFrom] at h
  | cons t ts ih =>
    have step : ∀ {bs await}, skipFrom bs await ts = .ok rs → rs.length < (t :: ts).length :=
      fun h => Nat.lt_succ_of_lt (ih h)
    have done : ts = rs → rs.length < (t :: ts).length := fun h => by simp [h]
    unfold skipFrom at h
    grind

namespace Reader

def skip : Reader Unit := fun ts =>
  match h : skipFrom [] .value ts with
  | .ok rs => .ok ((), ⟨rs, skipFrom_length h⟩)
  | .error m => .error (.malformed m)

/-- The members of an object. Of those with one name, the last is the one that counts. -/
def membersOf (read : Reader Value) : Reader (List (String × Value)) :=
  object "a map" (fun ms k => .ok (read.map fun v => Entries.set k v ms)) []

def scalar : Reader Value
  | [] => .error (.malformed .endInValue)
  | .null :: ts => .ok (.null, .one _ ts)
  | .bool b :: ts => .ok (.bool b, .one _ ts)
  | .number (some n) :: ts => .ok (.number n, .one _ ts)
  | .text s :: ts => .ok (.text s, .one _ ts)
  | .openList :: _ | .openObject :: _ => .error (.malformed .tooDeep)
  | t :: _ => .error (unwanted "any value" t)

/-- Any value with at most `depth` brackets inside each other. -/
def any : Nat → Reader Value
  | 0, ts => scalar ts
  | depth + 1, ts =>
    match ts.head? with
    | some .openList => (list (any depth)).map Value.list ts
    | some .openObject => (membersOf (any depth)).map Value.object ts
    | _ => scalar ts

def decode {α : Type} (read : Reader α) (text : String) : Except ReadError α :=
  match read (tokens text.toList) with
  | .error e => .error e
  | .ok (a, ⟨[], _⟩) => .ok a
  | .ok (_, ⟨_ :: _, _⟩) => .error (.malformed .trailingText)

end Reader

end Spintax.Json
