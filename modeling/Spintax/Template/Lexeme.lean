import Spintax.Number.Numeral
import Spintax.Template.Fault

namespace Spintax

/-- What one lexeme says. An `ending` closes a branch, and with `last` its group. -/
inductive Sign where
  | char (c : Char)
  | slot (name : String)
  | opening
  | ending (weight : Option UInt32) (last : Bool)
deriving DecidableEq, Repr

/-- A sign, the characters that write it, and the text after them. -/
structure Lexeme where
  sign : Sign
  written : List Char
  rest : List Char
deriving DecidableEq, Repr

namespace Lexeme

def isSpecial (c : Char) : Bool :=
  c = '{' || c = '}' || c = '|' || c = '\\' || c = '^'

def isNameStart (c : Char) : Bool :=
  c.isAlpha || c = '_'

def isNamePart (c : Char) : Bool :=
  c.isAlphanum || c = '_'

def isIdentifier : List Char → Bool
  | [] => false
  | c :: cs => isNameStart c && cs.all isNamePart

def isSlotBody (c : Char) : Bool :=
  !(c = '{' || c = '}' || c = '|' || c = '\\')

def weight? (digits : List Char) : Option UInt32 :=
  let n := Number.valueOf digits
  if 0 < n ∧ n < UInt32.size then some (.ofNat n) else none

def afterBackslash : List Char → Lexeme
  | [] => ⟨.char '\\', ['\\'], []⟩
  | c :: cs =>
    if isSpecial c then ⟨.char c, ['\\', c], cs⟩ else ⟨.char '\\', ['\\'], c :: cs⟩

/-- Read on after two opening braces. The text up to the next brace, bar or
backslash is a name if two closing braces follow it, and a name that somebody
forgot to close if it is an identifier and nothing else can follow. -/
def afterBraces (cs : List Char) : Except Flaw Lexeme :=
  let body := cs.takeWhile isSlotBody
  let opening := ⟨.opening, ['{'], '{' :: cs⟩
  let unclosed := if isIdentifier body then .error .unclosedSlot else .ok opening
  match cs.dropWhile isSlotBody with
  | '}' :: '}' :: rest =>
    if body.isEmpty then .error .namelessSlot
    else if isIdentifier body then
      .ok ⟨.slot (.ofList body), '{' :: '{' :: (body ++ ['}', '}']), rest⟩
    else .error .badSlotName
  | '}' :: _ => unclosed
  | [] => unclosed
  | _ :: _ => .ok opening

def afterBrace : List Char → Except Flaw Lexeme
  | '{' :: cs => afterBraces cs
  | cs => .ok ⟨.opening, ['{'], cs⟩

/-- Read on after a caret in a group. Digits before the end of the branch are
its weight; any other caret stands for itself. -/
def afterCaret (cs : List Char) : Except Flaw Lexeme :=
  let digits := cs.takeWhile Char.isDigit
  let caret := ⟨.char '^', ['^'], cs⟩
  if digits.isEmpty then .ok caret
  else
    match cs.dropWhile Char.isDigit with
    | c :: rest =>
      if c = '|' || c = '}' then
        match weight? digits with
        | some w => .ok ⟨.ending (some w) (c = '}'), '^' :: (digits ++ [c]), rest⟩
        | none => .error .badWeight
      else .ok caret
    | [] => .ok caret

/-- Read the lexeme at the head of `c :: cs`. Bars and carets are ordinary
characters outside groups. -/
def read (inside : Bool) (c : Char) (cs : List Char) : Except Flaw Lexeme :=
  if c = '\\' then .ok (afterBackslash cs)
  else if c = '{' then afterBrace cs
  else if c = '}' then .ok ⟨.ending none true, ['}'], cs⟩
  else if c = '|' && inside then .ok ⟨.ending none false, ['|'], cs⟩
  else if c = '^' && inside then afterCaret cs
  else .ok ⟨.char c, [c], cs⟩

/-- The lexeme `x` is the head of `cs`: nothing is lost or read twice, and at
least one character is read. -/
structure Heads (x : Lexeme) (cs : List Char) : Prop where
  append : x.written ++ x.rest = cs
  ne_nil : x.written ≠ []

theorem afterBackslash_heads (cs : List Char) : (afterBackslash cs).Heads ('\\' :: cs) := by
  cases cs with
  | nil => exact ⟨rfl, List.cons_ne_nil _ _⟩
  | cons c cs =>
    rw [afterBackslash]
    split <;> exact ⟨rfl, List.cons_ne_nil _ _⟩

theorem afterBraces_heads {cs : List Char} {x : Lexeme} (h : afterBraces cs = .ok x) :
    x.Heads ('{' :: '{' :: cs) := by
  have hcs := List.takeWhile_append_dropWhile (p := isSlotBody) (l := cs)
  unfold afterBraces at h
  simp only at h
  split at h
  case h_1 rest heq =>
    rw [heq] at hcs
    split at h
    · cases h
    · split at h
      · cases h; exact ⟨by simp [hcs], List.cons_ne_nil _ _⟩
      · cases h
  case h_4 => cases h; exact ⟨rfl, List.cons_ne_nil _ _⟩
  all_goals
    split at h
    · cases h
    · cases h; exact ⟨rfl, List.cons_ne_nil _ _⟩

theorem afterBrace_heads {cs : List Char} {x : Lexeme} (h : afterBrace cs = .ok x) :
    x.Heads ('{' :: cs) := by
  unfold afterBrace at h
  split at h
  · exact afterBraces_heads h
  · cases h; exact ⟨rfl, List.cons_ne_nil _ _⟩

theorem afterCaret_heads {cs : List Char} {x : Lexeme} (h : afterCaret cs = .ok x) :
    x.Heads ('^' :: cs) := by
  have hcs := List.takeWhile_append_dropWhile (p := Char.isDigit) (l := cs)
  unfold afterCaret at h
  simp only at h
  split at h
  · cases h; exact ⟨rfl, List.cons_ne_nil _ _⟩
  · split at h
    case h_1 c rest heq =>
      rw [heq] at hcs
      split at h
      · split at h
        · cases h; exact ⟨by simp [hcs], List.cons_ne_nil _ _⟩
        · cases h
      · cases h; exact ⟨rfl, List.cons_ne_nil _ _⟩
    case h_2 => cases h; exact ⟨rfl, List.cons_ne_nil _ _⟩

theorem read_heads {inside : Bool} {c : Char} {cs : List Char} {x : Lexeme}
    (h : read inside c cs = .ok x) : x.Heads (c :: cs) := by
  unfold read at h
  split at h
  case isTrue hc => cases h; subst hc; exact afterBackslash_heads cs
  split at h
  case isTrue hc => subst hc; exact afterBrace_heads h
  split at h
  case isTrue hc => cases h; subst hc; exact ⟨rfl, List.cons_ne_nil _ _⟩
  split at h
  case isTrue hc =>
    simp only [Bool.and_eq_true, decide_eq_true_eq] at hc
    cases h; exact ⟨by simp [hc.1], List.cons_ne_nil _ _⟩
  split at h
  case isTrue hc =>
    simp only [Bool.and_eq_true, decide_eq_true_eq] at hc
    rw [hc.1]; exact afterCaret_heads h
  · cases h; exact ⟨rfl, List.cons_ne_nil _ _⟩

theorem rest_length_lt {inside : Bool} {c : Char} {cs : List Char} {x : Lexeme}
    (h : read inside c cs = .ok x) : x.rest.length < (c :: cs).length := by
  have ha := congrArg List.length (read_heads h).append
  have hn := List.length_pos_iff.2 (read_heads h).ne_nil
  simp only [List.length_append] at ha
  omega

end Lexeme

end Spintax
