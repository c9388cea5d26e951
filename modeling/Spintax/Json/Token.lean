import Spintax.Json.Malformation
import Spintax.Json.Value
import Spintax.Number.Numeral
import Spintax.Text.Length

namespace Spintax.Json

/-- A text is broken if its escapes do not stand for characters. A number token holds
no number if it is too large. A fault says what is wrong for those who read the value and
for those who skip it. -/
inductive Token where
  | openList
  | closeList
  | openObject
  | closeObject
  | comma
  | colon
  | null
  | bool (b : Bool)
  | number (n : Option Number)
  | text (s : String)
  | brokenText (m : Malformation)
  | fault (read skipped : Malformation)
deriving DecidableEq, Repr

namespace Token

def isSpace (c : Char) : Bool :=
  c = ' ' || c = '\n' || c = '\t' || c = '\r'

def hexValue? (c : Char) : Option Nat :=
  if '0' ≤ c && c ≤ '9' then some (c.toNat - '0'.toNat)
  else if 'a' ≤ c && c ≤ 'f' then some (c.toNat - 'a'.toNat + 10)
  else if 'A' ≤ c && c ≤ 'F' then some (c.toNat - 'A'.toNat + 10)
  else none

def unit? (a b c d : Char) : Option Nat := do
  let high := (← hexValue? a) * 16 + (← hexValue? b)
  return high * 256 + (← hexValue? c) * 16 + (← hexValue? d)

def short? (c : Char) : Option Char :=
  if c = '"' || c = '\\' || c = '/' then some c
  else if c = 'b' then some '\x08'
  else if c = 'f' then some '\x0c'
  else if c = 'n' then some '\n'
  else if c = 'r' then some '\r'
  else if c = 't' then some '\t'
  else none

/-- The code units of a string up to its closing quote, and what comes after.
Characters that are not escaped count as one unit. -/
def units? : List Char → Option (List Nat × List Char)
  | [] => none
  | '"' :: cs => some ([], cs)
  | '\\' :: 'u' :: a :: b :: c :: d :: cs => do
    let unit ← unit? a b c d
    let (units, rest) ← units? cs
    return (unit :: units, rest)
  | '\\' :: c :: cs => do
    let c ← short? c
    let (units, rest) ← units? cs
    return (c.toNat :: units, rest)
  | c :: cs =>
    if c < ' ' || c = '\\' then none
    else do
      let (units, rest) ← units? cs
      return (c.toNat :: units, rest)

def isHigh (n : Nat) : Bool :=
  0xD800 ≤ n && n < 0xDC00

def isLow (n : Nat) : Bool :=
  0xDC00 ≤ n && n < 0xE000

/-- Put pairs of surrogates together. A surrogate without its other half is no
character. -/
def chars? : List Nat → Option (List Char)
  | [] => some []
  | m :: n :: ns =>
    if isHigh m then
      if isLow n then do
        return .ofNat (0x10000 + (m - 0xD800) * 0x400 + (n - 0xDC00)) :: (← chars? ns)
      else none
    else if isLow m then none
    else do return .ofNat m :: (← chars? (n :: ns))
  | [n] => if isHigh n || isLow n then none else some [.ofNat n]

def unitFault (cs : List Char) : Malformation :=
  if Text.byteLength cs < 4 then .endInString else .badEscape

def surrogateFault? (unit : Nat) (cs : List Char) : Option Malformation :=
  if isLow unit then some .loneSurrogate
  else if isHigh unit then
    match cs with
    | '\\' :: 'u' :: cs =>
      match cs with
      | a :: b :: c :: d :: _ =>
        match unit? a b c d with
        | some low => if isLow low then none else some .loneSurrogate
        | none => some .badEscape
      | cs => some (unitFault cs)
    | ['\\'] | [] => some .endInString
    | _ => some .halfPair
  else none

/-- The first thing that is wrong with a string, after its opening quote. The second
half of a pair is looked at together with the first. Whether surrogates come in pairs
is up to those who read the string. -/
def stringFault (skipped second : Bool) : List Char → Malformation
  | [] => .endInString
  | '\\' :: 'u' :: a :: b :: c :: d :: cs =>
    match unit? a b c d with
    | none => .badEscape
    | some unit =>
      if skipped || second then stringFault skipped false cs
      else (surrogateFault? unit cs).getD (stringFault skipped (isHigh unit) cs)
  | '\\' :: 'u' :: cs => unitFault cs
  | ['\\'] => .endInString
  | '\\' :: c :: cs => if (short? c).isSome then stringFault skipped false cs else .badEscape
  | c :: cs => if c < ' ' then .controlCharacter else stringFault skipped false cs

/-- The longest row of digits at the head whose value, behind that of `n`, fits
into 64 bits; the digits that are left over. -/
def significand (n : Nat) : List Char → Nat × List Char
  | [] => (n, [])
  | d :: ds =>
    let m := n * 10 + (d.toNat - '0'.toNat)
    if m < UInt64.size then significand m ds else (n, d :: ds)

/-- Divide by a power of ten in steps that the format can hold. -/
def scaleDown (x : Number.Binary64) (e : Nat) : Number.Binary64 :=
  if e ≤ 308 then .div x (.ofNat (Number.tenTo e))
  else if x.mant = 0 then x
  else scaleDown (.div x (.ofNat (Number.tenTo 308))) (e - 308)
termination_by e

def scale? (n : Nat) (e : Int) : Option Number.Binary64 :=
  let x := Number.Binary64.ofNat n
  if e < 0 then some (scaleDown x (-e).toNat)
  else if n = 0 then some x
  else if 308 < e then none
  else
    let y := x.mul (.ofNat (Number.tenTo e.toNat))
    if y.isFinite then some y else none

/-- The parts of a number: its digits in front of the point and behind it, and
its exponent. -/
structure Numeral where
  minus : Bool
  whole : List Char
  fraction : Option (List Char)
  exponent : Option (Bool × List Char)

/-- Numbers without fraction and exponent are integers if they fit into 64 bits. -/
def Numeral.number (x : Numeral) : Option Number :=
  let (n, dropped) := significand 0 x.whole
  let (m, ignored) := significand n (x.fraction.getD [])
  let places := (x.fraction.getD []).length - ignored.length
  let shift : Int := dropped.length - places
  match x.exponent with
  | none =>
    if x.fraction.isNone && dropped.isEmpty && (!x.minus || 0 < n && n ≤ 0x8000000000000000) then
      some (.integer (if x.minus then -n else n))
    else (scale? m shift).map (.real x.minus)
  | some (minus, digits) =>
    let e := Number.valueOf digits
    if 0x80000000 ≤ e then
      if m ≠ 0 && !minus then none else some (.real x.minus .zero)
    else (scale? m (if minus then shift - e else shift + e)).map (.real x.minus)

def digitsAt? (cs : List Char) : Option (List Char × List Char) :=
  let digits := cs.takeWhile Char.isDigit
  if digits.isEmpty then none else some (digits, cs.dropWhile Char.isDigit)

def wholeAt? (cs : List Char) : Option (List Char × List Char) := do
  let (digits, rest) ← digitsAt? cs
  if digits.head? = some '0' && 1 < digits.length then none else some (digits, rest)

def fractionAt? : List Char → Option (Option (List Char) × List Char)
  | '.' :: cs => (digitsAt? cs).map fun (digits, rest) => (some digits, rest)
  | cs => some (none, cs)

def minusAt : List Char → Bool × List Char
  | '-' :: cs => (true, cs)
  | cs => (false, cs)

def plusAt : List Char → List Char
  | '+' :: cs => cs
  | cs => cs

def exponentAt? : List Char → Option (Option (Bool × List Char) × List Char)
  | [] => some (none, [])
  | c :: cs =>
    if c = 'e' || c = 'E' then
      let (minus, ds) := minusAt cs
      (digitsAt? (if minus then ds else plusAt ds)).map fun (digits, rest) =>
        (some (minus, digits), rest)
    else some (none, c :: cs)

def numeral? (cs : List Char) : Option (Numeral × List Char) := do
  let (minus, ds) := minusAt cs
  let (whole, r) ← wholeAt? ds
  let (fraction, r) ← fractionAt? r
  let (exponent, r) ← exponentAt? r
  return (⟨minus, whole, fraction, exponent⟩, r)

/-- What is wrong with a number that ends where a digit should be. Those who skip it do
not see whether the text ends there. -/
def digitFault (skipped : Bool) (cs : List Char) : Malformation :=
  if cs.isEmpty && !skipped then .endInValue else .badNumber

def exponentFault (skipped : Bool) (cs : List Char) : Malformation :=
  let (minus, ds) := minusAt (cs.drop 1)
  digitFault skipped (if minus then ds else plusAt ds)

def numberFault (skipped : Bool) (cs : List Char) : Malformation :=
  let ds := (minusAt cs).2
  match wholeAt? ds with
  | none => digitFault skipped ds
  | some (_, '.' :: r) =>
    match digitsAt? r with
    | none => digitFault skipped r
    | some (_, r) => exponentFault skipped r
  | some (_, r) => exponentFault skipped r

def wordFault : List Char → List Char → Malformation
  | e :: es, c :: cs => if e = c then wordFault es cs else .badWord
  | _, _ => .endInValue

def faultAt (skipped : Bool) (c : Char) (cs : List Char) : Malformation :=
  if c = '"' then stringFault skipped false cs
  else if c = 'n' then wordFault ['u', 'l', 'l'] cs
  else if c = 't' then wordFault ['r', 'u', 'e'] cs
  else if c = 'f' then wordFault ['a', 'l', 's', 'e'] cs
  else if c = '-' || c.isDigit then numberFault skipped (c :: cs)
  else .valueWanted

def textOf (cs : List Char) (units : List Nat) : Token :=
  match chars? units with
  | some chars => text (.ofList chars)
  | none => brokenText (stringFault false false cs)

/-- The token at the head of a text that starts with `c`, and the text after it. -/
def next (c : Char) (cs : List Char) : Option (Token × List Char) :=
  match c, cs with
  | '[', cs => some (openList, cs)
  | ']', cs => some (closeList, cs)
  | '{', cs => some (openObject, cs)
  | '}', cs => some (closeObject, cs)
  | ',', cs => some (comma, cs)
  | ':', cs => some (colon, cs)
  | 'n', 'u' :: 'l' :: 'l' :: cs => some (null, cs)
  | 't', 'r' :: 'u' :: 'e' :: cs => some (bool true, cs)
  | 'f', 'a' :: 'l' :: 's' :: 'e' :: cs => some (bool false, cs)
  | '"', cs => do
    let (units, rest) ← units? cs
    return (textOf cs units, rest)
  | c, cs => do
    let (n, rest) ← numeral? (c :: cs)
    return (number n.number, rest)

theorem units?_length {cs : List Char} {us : List Nat} {rest : List Char}
    (h : units? cs = some (us, rest)) : rest.length < cs.length := by
  fun_induction units? cs generalizing us rest with
  | case1 => cases h
  | case2 cs => cases h; simp
  | case3 a b c d cs ih =>
    simp only [Option.bind_eq_bind, Option.pure_def, Option.bind_eq_some_iff, Prod.exists] at h
    obtain ⟨_, _, vs, r, hr, h⟩ := h
    cases h
    have := ih hr
    simp only [List.length_cons]
    omega
  | case4 c cs _ ih =>
    simp only [Option.bind_eq_bind, Option.pure_def, Option.bind_eq_some_iff, Prod.exists] at h
    obtain ⟨_, _, vs, r, hr, h⟩ := h
    cases h
    have := ih hr
    simp only [List.length_cons]
    omega
  | case5 => cases h
  | case6 c cs _ _ _ _ ih =>
    simp only [Option.bind_eq_bind, Option.pure_def, Option.bind_eq_some_iff, Prod.exists] at h
    obtain ⟨vs, r, hr, h⟩ := h
    cases h
    have := ih hr
    simp only [List.length_cons]
    omega

theorem digitsAt?_length {cs digits rest : List Char} (h : digitsAt? cs = some (digits, rest)) :
    rest.length < cs.length := by
  have hcs := congrArg List.length (List.takeWhile_append_dropWhile (p := Char.isDigit) (l := cs))
  unfold digitsAt? at h
  simp only at h
  split at h
  case isTrue => cases h
  case isFalse hne =>
    cases h
    have := List.length_pos_iff.2 (mt List.isEmpty_iff.2 hne)
    simp only [List.length_append] at hcs
    omega

theorem wholeAt?_length {cs digits rest : List Char} (h : wholeAt? cs = some (digits, rest)) :
    rest.length < cs.length := by
  simp only [wholeAt?, Option.bind_eq_bind, Option.bind_eq_some_iff, Prod.exists] at h
  obtain ⟨ds, r, hr, h⟩ := h
  split at h
  · cases h
  · cases h; exact digitsAt?_length hr

theorem fractionAt?_length {cs rest : List Char} {f : Option (List Char)}
    (h : fractionAt? cs = some (f, rest)) : rest.length ≤ cs.length := by
  unfold fractionAt? at h
  split at h
  · simp only [Option.map_eq_some_iff, Prod.exists] at h
    obtain ⟨ds, r, hr, h⟩ := h
    cases h
    have := digitsAt?_length hr
    simp only [List.length_cons]
    omega
  · cases h; exact Nat.le_refl _

theorem minusAt_length (cs : List Char) : (minusAt cs).2.length ≤ cs.length := by
  unfold minusAt
  split <;> simp

theorem plusAt_length (cs : List Char) : (plusAt cs).length ≤ cs.length := by
  unfold plusAt
  split <;> simp

theorem exponentAt?_length {cs rest : List Char} {e : Option (Bool × List Char)}
    (h : exponentAt? cs = some (e, rest)) : rest.length ≤ cs.length := by
  unfold exponentAt? at h
  split at h
  · cases h; exact Nat.le_refl _
  case h_2 c cs =>
    split at h
    · simp only [Option.map_eq_some_iff, Prod.exists] at h
      obtain ⟨ds, r, hr, h⟩ := h
      cases h
      have := digitsAt?_length hr
      have := minusAt_length cs
      have := plusAt_length (minusAt cs).2
      simp only [List.length_cons]
      split at hr <;> simp_all <;> omega
    · cases h; exact Nat.le_refl _

theorem numeral?_length {cs rest : List Char} {x : Numeral} (h : numeral? cs = some (x, rest)) :
    rest.length < cs.length := by
  simp only [numeral?, Option.bind_eq_bind, Option.pure_def, Option.bind_eq_some_iff,
    Prod.exists] at h
  obtain ⟨whole, r₁, h₁, fraction, r₂, h₂, exponent, r₃, h₃, h⟩ := h
  cases h
  have := minusAt_length cs
  have := wholeAt?_length h₁
  have := fractionAt?_length h₂
  have := exponentAt?_length h₃
  omega

theorem next_length {c : Char} {cs rest : List Char} {t : Token}
    (h : next c cs = some (t, rest)) : rest.length ≤ cs.length := by
  unfold next at h
  split at h
  case h_10 =>
    simp only [Option.bind_eq_bind, Option.pure_def, Option.bind_eq_some_iff, Prod.exists] at h
    obtain ⟨us, r, hr, h⟩ := h
    cases h
    exact Nat.le_of_lt (units?_length hr)
  case h_11 =>
    simp only [Option.bind_eq_bind, Option.pure_def, Option.bind_eq_some_iff, Prod.exists] at h
    obtain ⟨n, r, hr, h⟩ := h
    cases h
    exact Nat.le_of_lt_succ (numeral?_length hr)
  all_goals
    cases h
    simp +arith

end Token

open Token in
/-- The tokens of a text, up to the first place where it is not JSON. -/
def tokens : List Char → List Token
  | [] => []
  | c :: cs =>
    if isSpace c then tokens cs
    else
      match _h : next c cs with
      | none => [fault (faultAt false c cs) (faultAt true c cs)]
      | some (t, rest) => t :: tokens rest
termination_by cs => cs.length
decreasing_by
  · simp
  · exact Nat.lt_succ_of_le (next_length _h)

end Spintax.Json
