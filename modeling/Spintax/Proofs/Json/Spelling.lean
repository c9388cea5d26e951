import Spintax.Json.Token
import Spintax.Json.Writer
import Spintax.Proofs.Number.Digits

namespace Spintax.Json

def IsHexDigit (n : Nat) (c : Char) : Prop :=
  n < 16 ∧ (c = hexDigit n ∨ c = (hexDigit n).toUpper)

inductive SpellsUnit : Nat → List Char → Prop
  | digits {h i j k : Nat} {a b c d : Char} (ha : IsHexDigit h a) (hb : IsHexDigit i b)
      (hc : IsHexDigit j c) (hd : IsHexDigit k d) :
      SpellsUnit ((h * 16 + i) * 256 + j * 16 + k) [a, b, c, d]

def escapes : List (Char × Char) :=
  [('"', '"'), ('\\', '\\'), ('/', '/'), ('b', '\x08'), ('f', '\x0c'), ('n', '\n'), ('r', '\r'),
    ('t', '\t')]

/-- The ways to write a character within quotes: as it is, with a letter, or with one or two code
units. -/
inductive SpellsChar : Char → List Char → Prop
  | plain {c : Char} (hspace : ' ' ≤ c) (hquote : c ≠ '"') (hback : c ≠ '\\') : SpellsChar c [c]
  | short {e c : Char} (h : (e, c) ∈ escapes) : SpellsChar c ['\\', e]
  | unit {c : Char} {ds : List Char} (h : SpellsUnit c.toNat ds) : SpellsChar c ('\\' :: 'u' :: ds)
  | pair {c : Char} {m n : Nat} {ds es : List Char} (hm : 0xD800 ≤ m ∧ m < 0xDC00)
      (hn : 0xDC00 ≤ n ∧ n < 0xE000)
      (hc : c.toNat = 0x10000 + (m - 0xD800) * 0x400 + (n - 0xDC00)) (hds : SpellsUnit m ds)
      (hes : SpellsUnit n es) : SpellsChar c ('\\' :: 'u' :: (ds ++ '\\' :: 'u' :: es))

inductive SpellsChars : List Char → List Char → Prop
  | nil : SpellsChars [] []
  | cons {c : Char} {cs s t : List Char} (hc : SpellsChar c s) (hcs : SpellsChars cs t) :
      SpellsChars (c :: cs) (s ++ t)

/-- What stands within quotes, with the code units that it is for. They need not make up
characters. -/
inductive SpellsUnits : List Nat → List Char → Prop
  | nil : SpellsUnits [] []
  | plain {c : Char} {us : List Nat} {s : List Char} (hspace : ' ' ≤ c) (hquote : c ≠ '"')
      (hback : c ≠ '\\') (h : SpellsUnits us s) : SpellsUnits (c.toNat :: us) (c :: s)
  | short {e c : Char} {us : List Nat} {s : List Char} (he : (e, c) ∈ escapes)
      (h : SpellsUnits us s) : SpellsUnits (c.toNat :: us) ('\\' :: e :: s)
  | unit {n : Nat} {ds : List Char} {us : List Nat} {s : List Char} (hds : SpellsUnit n ds)
      (h : SpellsUnits us s) : SpellsUnits (n :: us) ('\\' :: 'u' :: (ds ++ s))

def IsDigits (ds : List Char) : Prop :=
  ds ≠ [] ∧ ∀ d ∈ ds, d.isDigit = true

inductive SpellsFraction : Option (List Char) → List Char → Prop
  | none : SpellsFraction none []
  | some {ds : List Char} (h : IsDigits ds) : SpellsFraction (some ds) ('.' :: ds)

inductive SpellsExponent : Option (Bool × List Char) → List Char → Prop
  | none : SpellsExponent none []
  | bare {e : Char} {ds : List Char} (he : e = 'e' ∨ e = 'E') (h : IsDigits ds) :
      SpellsExponent (some (false, ds)) (e :: ds)
  | plus {e : Char} {ds : List Char} (he : e = 'e' ∨ e = 'E') (h : IsDigits ds) :
      SpellsExponent (some (false, ds)) (e :: '+' :: ds)
  | minus {e : Char} {ds : List Char} (he : e = 'e' ∨ e = 'E') (h : IsDigits ds) :
      SpellsExponent (some (true, ds)) (e :: '-' :: ds)

/-- There are no zeros in front of other digits. -/
inductive SpellsNumeral : Token.Numeral → List Char → Prop
  | parts {minus : Bool} {whole : List Char} {fraction : Option (List Char)}
      {exponent : Option (Bool × List Char)} {fs es : List Char} (hwhole : IsDigits whole)
      (hzero : whole.head? = some '0' → whole = ['0']) (hfs : SpellsFraction fraction fs)
      (hes : SpellsExponent exponent es) :
      SpellsNumeral ⟨minus, whole, fraction, exponent⟩
        ((if minus then ['-'] else []) ++ (whole ++ (fs ++ es)))

inductive SpellsToken : Token → List Char → Prop
  | openList : SpellsToken .openList ['[']
  | closeList : SpellsToken .closeList [']']
  | openObject : SpellsToken .openObject ['{']
  | closeObject : SpellsToken .closeObject ['}']
  | comma : SpellsToken .comma [',']
  | colon : SpellsToken .colon [':']
  | null : SpellsToken .null ['n', 'u', 'l', 'l']
  | bool (b : Bool) :
      SpellsToken (.bool b) (if b then ['t', 'r', 'u', 'e'] else ['f', 'a', 'l', 's', 'e'])
  | number {x : Token.Numeral} {cs : List Char} (h : SpellsNumeral x cs) :
      SpellsToken (.number x.number) cs
  | text {s : String} {cs : List Char} (h : SpellsChars s.toList cs) :
      SpellsToken (.text s) ('"' :: (cs ++ ['"']))

def EndsNumber (cs : List Char) : Prop :=
  ∀ c ∈ cs.head?, c.isDigit = false ∧ c ≠ '.' ∧ c ≠ 'e' ∧ c ≠ 'E'

def Spaces (cs : List Char) : Prop :=
  ∀ c ∈ cs, c ∈ [' ', '\n', '\t', '\r']

inductive Spells : List Token → List Char → Prop
  | nil {s : List Char} (hs : Spaces s) : Spells [] s
  | cons {t : Token} {ts : List Token} {s w cs : List Char} (hs : Spaces s) (hw : SpellsToken t w)
      (hend : ∀ n, t = .number n → EndsNumber cs) (hcs : Spells ts cs) :
      Spells (t :: ts) (s ++ (w ++ cs))

/-- The ways to write tokens if strings that nobody reads need not make up characters. -/
inductive Shows : List Token → List Char → Prop
  | nil {s : List Char} (hs : Spaces s) : Shows [] s
  | cons {t : Token} {ts : List Token} {s w cs : List Char} (hs : Spaces s) (hw : SpellsToken t w)
      (hend : ∀ n, t = .number n → EndsNumber cs) (hcs : Shows ts cs) :
      Shows (t :: ts) (s ++ (w ++ cs))
  | broken {us : List Nat} {m : Malformation} {ts : List Token} {s w cs : List Char}
      (hs : Spaces s) (hw : SpellsUnits us w)
      (hm : Token.textOf (w ++ '"' :: cs) us = .brokenText m) (hcs : Shows ts cs) :
      Shows (.brokenText m :: ts) (s ++ '"' :: (w ++ '"' :: cs))

theorem Spells.shows {ts : List Token} {cs : List Char} (h : Spells ts cs) : Shows ts cs := by
  induction h with
  | nil hs => exact .nil hs
  | cons hs hw hend _ ih => exact .cons hs hw hend ih

namespace Token

theorem hexValue?_of_isHexDigit {n : Nat} {c : Char} (h : IsHexDigit n c) :
    hexValue? c = some n := by
  obtain ⟨hn, hc⟩ := h
  have hall : ∀ n < 16, hexValue? (hexDigit n) = some n ∧
      hexValue? (hexDigit n).toUpper = some n := by decide
  obtain rfl | rfl := hc
  · exact (hall n hn).1
  · exact (hall n hn).2

theorem units?_unit {n : Nat} {ds : List Char} (h : SpellsUnit n ds) (cs : List Char) :
    units? ('\\' :: 'u' :: (ds ++ cs)) = (units? cs).map fun (us, rest) => (n :: us, rest) := by
  cases h with
  | digits ha hb hc hd =>
    simp only [List.cons_append, List.nil_append, units?, unit?, hexValue?_of_isHexDigit ha,
      hexValue?_of_isHexDigit hb, hexValue?_of_isHexDigit hc, hexValue?_of_isHexDigit hd]
    cases units? cs <;> rfl

theorem units?_short {e c : Char} (h : (e, c) ∈ escapes) (cs : List Char) :
    units? ('\\' :: e :: cs) = (units? cs).map fun (us, rest) => (c.toNat :: us, rest) := by
  have hu : e ≠ 'u' ∧ short? e = some c := by
    have hall : ∀ p ∈ escapes, p.1 ≠ 'u' ∧ short? p.1 = some p.2 := by decide
    exact hall _ h
  obtain ⟨hu, hshort⟩ := hu
  rw [units?.eq_4 _ _ (by rintro a b c d cs' rfl; exact absurd rfl hu)]
  simp only [hshort]
  cases units? cs <;> rfl

theorem units?_plain {c : Char} (hspace : ' ' ≤ c) (hquote : c ≠ '"') (hback : c ≠ '\\')
    (cs : List Char) :
    units? (c :: cs) = (units? cs).map fun (us, rest) => (c.toNat :: us, rest) := by
  rw [units?.eq_5 _ _ hquote (fun _ _ _ _ _ h _ => hback h) (fun _ _ h _ => hback h)]
  have hguard : (decide (c < ' ') || decide (c = '\\')) = false := by
    simp [hback, Char.not_lt.mpr hspace]
  rw [hguard]
  cases units? cs <;> rfl

theorem isHigh_toNat (c : Char) : isHigh c.toNat = false ∧ isLow c.toNat = false := by
  have hvalid := c.valid
  simp only [UInt32.isValidChar, Nat.isValidChar] at hvalid
  simp only [isHigh, isLow, Char.toNat, Bool.and_eq_false_iff, decide_eq_false_iff_not]
  omega

theorem chars?_char (c : Char) (us : List Nat) :
    chars? (c.toNat :: us) = (chars? us).map (c :: ·) := by
  obtain ⟨hhigh, hlow⟩ := isHigh_toNat c
  cases us with
  | nil => simp [chars?, hhigh, hlow, Char.ofNat_toNat]
  | cons n us =>
    rw [chars?, hhigh, hlow, Char.ofNat_toNat]
    simp only [Bool.false_eq_true, if_false]
    cases chars? (n :: us) <;> rfl

theorem chars?_pair {c : Char} {m n : Nat} (hm : 0xD800 ≤ m ∧ m < 0xDC00)
    (hn : 0xDC00 ≤ n ∧ n < 0xE000) (hc : c.toNat = 0x10000 + (m - 0xD800) * 0x400 + (n - 0xDC00))
    (us : List Nat) : chars? (m :: n :: us) = (chars? us).map (c :: ·) := by
  have hhigh : isHigh m = true := by simp [isHigh, hm]
  have hlow : isLow n = true := by simp [isLow, hn]
  rw [chars?, hhigh, hlow, ← hc, Char.ofNat_toNat]
  simp only [if_true]
  cases chars? us <;> rfl

theorem units?_append {us : List Nat} {s : List Char} (h : SpellsUnits us s) (rest : List Char) :
    units? (s ++ '"' :: rest) = some (us, rest) := by
  induction h with
  | nil => exact units?.eq_2 rest
  | plain hspace hquote hback _ ih =>
    rw [List.cons_append, units?_plain hspace hquote hback, ih]
    rfl
  | short he _ ih =>
    rw [List.cons_append, List.cons_append, units?_short he, ih]
    rfl
  | unit hds _ ih =>
    rw [List.cons_append, List.cons_append, List.append_assoc, units?_unit hds, ih]
    rfl

theorem exists_units {s cs : List Char} (h : SpellsChars s cs) :
    ∃ us, SpellsUnits us cs ∧ chars? us = some s := by
  induction h with
  | nil => exact ⟨[], .nil, rfl⟩
  | @cons c s ds t hc _ ih =>
    obtain ⟨us, hus, hs⟩ := ih
    have hchars : chars? (c.toNat :: us) = some (c :: s) := by rw [chars?_char, hs]; rfl
    cases hc with
    | plain hspace hquote hback => exact ⟨_, .plain hspace hquote hback hus, hchars⟩
    | short he => exact ⟨_, .short he hus, hchars⟩
    | unit hds => exact ⟨_, .unit hds hus, hchars⟩
    | @pair _ m n _ _ hm hn hchar hds hes =>
      refine ⟨m :: n :: us, ?_, by rw [chars?_pair hm hn hchar, hs]; rfl⟩
      rw [List.cons_append, List.cons_append, List.append_assoc]
      exact .unit hds (.unit hes hus)

theorem digitsAt?_append {ds cs : List Char} (h : IsDigits ds)
    (hcs : ∀ c ∈ cs.head?, c.isDigit = false) : digitsAt? (ds ++ cs) = some (ds, cs) := by
  obtain ⟨hne, hds⟩ := h
  have htake : cs.takeWhile Char.isDigit = [] ∧ cs.dropWhile Char.isDigit = cs := by
    cases cs with
    | nil => exact ⟨rfl, rfl⟩
    | cons c cs =>
      have hc := hcs c rfl
      simp [hc]
  rw [digitsAt?, List.takeWhile_append_of_pos hds, List.dropWhile_append_of_pos hds, htake.1,
    htake.2, List.append_nil]
  simp [hne]

theorem wholeAt?_append {ds cs : List Char} (h : IsDigits ds)
    (hzero : ds.head? = some '0' → ds = ['0']) (hcs : ∀ c ∈ cs.head?, c.isDigit = false) :
    wholeAt? (ds ++ cs) = some (ds, cs) := by
  have hguard : (ds.head? = some '0' && 1 < ds.length) = false := by
    by_cases hd : ds.head? = some '0'
    · simp [hzero hd]
    · simp [hd]
  simp only [wholeAt?, digitsAt?_append h hcs, Option.bind_eq_bind, Option.bind_some, hguard,
    Bool.false_eq_true, if_false]

theorem head_exponent {e : Option (Bool × List Char)} {es cs : List Char}
    (h : SpellsExponent e es) (hcs : EndsNumber cs) :
    ∀ c ∈ (es ++ cs).head?, c.isDigit = false ∧ c ≠ '.' := by
  have hletter : ∀ {e c : Char}, e = 'e' ∨ e = 'E' → c ∈ some e → c.isDigit = false ∧ c ≠ '.' := by
    rintro e c he hc
    cases hc
    obtain rfl | rfl := he <;> decide
  cases h with
  | none => exact fun c hc => ⟨(hcs c hc).1, (hcs c hc).2.1⟩
  | bare he | plus he | minus he => exact fun c hc => hletter he hc

theorem head_fraction {f : Option (List Char)} {fs cs : List Char} (h : SpellsFraction f fs)
    (hcs : ∀ c ∈ cs.head?, c.isDigit = false ∧ c ≠ '.') :
    ∀ c ∈ (fs ++ cs).head?, c.isDigit = false := by
  cases h with
  | none => exact fun c hc => (hcs c hc).1
  | some =>
    intro c hc
    cases hc
    decide

theorem fractionAt?_append {f : Option (List Char)} {fs cs : List Char} (h : SpellsFraction f fs)
    (hcs : ∀ c ∈ cs.head?, c.isDigit = false ∧ c ≠ '.') :
    fractionAt? (fs ++ cs) = some (f, cs) := by
  cases h with
  | none =>
    rw [List.nil_append, fractionAt?.eq_2]
    rintro ds rfl
    exact (hcs '.' rfl).2 rfl
  | some hds =>
    rw [List.cons_append, fractionAt?, digitsAt?_append hds fun c hc => (hcs c hc).1]
    rfl

theorem exponentAt?_letter {e : Char} (he : e = 'e' ∨ e = 'E') (cs : List Char) :
    exponentAt? (e :: cs) =
      (digitsAt? (if (minusAt cs).1 then (minusAt cs).2 else plusAt (minusAt cs).2)).map
        fun (digits, rest) => (some ((minusAt cs).1, digits), rest) := by
  rw [exponentAt?, if_pos (by simpa using he)]

theorem exponentAt?_append {e : Option (Bool × List Char)} {es cs : List Char}
    (h : SpellsExponent e es) (hcs : EndsNumber cs) :
    exponentAt? (es ++ cs) = some (e, cs) := by
  have hdigits : ∀ {ds}, IsDigits ds → digitsAt? (ds ++ cs) = some (ds, cs) := fun hds =>
    digitsAt?_append hds fun c hc => (hcs c hc).1
  cases h with
  | none =>
    rw [List.nil_append]
    cases cs with
    | nil => rfl
    | cons c cs =>
      obtain ⟨-, -, he, hE⟩ := hcs c rfl
      simp [exponentAt?, he, hE]
  | @bare e ds he hds =>
    obtain ⟨d, ds', rfl⟩ := List.exists_cons_of_ne_nil hds.1
    have hd := hds.2 d List.mem_cons_self
    have hminus : minusAt (d :: ds' ++ cs) = (false, d :: ds' ++ cs) := by
      rw [minusAt.eq_2]
      rintro _ ⟨⟩
      simp at hd
    have hplus : plusAt (d :: ds' ++ cs) = d :: ds' ++ cs := by
      rw [plusAt.eq_2]
      rintro _ ⟨⟩
      simp at hd
    rw [List.cons_append, exponentAt?_letter he, hminus]
    simp only [Bool.false_eq_true, if_false, hplus, hdigits hds]
    rfl
  | plus he hds =>
    have hminus : ∀ ds, minusAt ('+' :: ds) = (false, '+' :: ds) := fun _ => rfl
    have hplus : ∀ ds, plusAt ('+' :: ds) = ds := fun _ => rfl
    rw [List.cons_append, List.cons_append, exponentAt?_letter he, hminus]
    simp only [Bool.false_eq_true, if_false, hplus, hdigits hds]
    rfl
  | minus he hds =>
    have hminus : ∀ ds, minusAt ('-' :: ds) = (true, ds) := fun _ => rfl
    rw [List.cons_append, List.cons_append, exponentAt?_letter he, hminus]
    simp only [if_true, hdigits hds]
    rfl

theorem numeral?_append {x : Numeral} {xs cs : List Char} (h : SpellsNumeral x xs)
    (hcs : EndsNumber cs) : numeral? (xs ++ cs) = some (x, cs) := by
  cases h with
  | @parts minus whole fraction exponent fs es hwhole hzero hfs hes =>
    have hexp := head_exponent hes hcs
    have hfrac := head_fraction hfs hexp
    have hminus : minusAt ((if minus then ['-'] else []) ++ (whole ++ (fs ++ es)) ++ cs) =
        (minus, whole ++ (fs ++ (es ++ cs))) := by
      cases minus with
      | true => simp [minusAt]
      | false =>
        obtain ⟨d, ds, rfl⟩ := List.exists_cons_of_ne_nil hwhole.1
        have hd := hwhole.2 d List.mem_cons_self
        simp only [Bool.false_eq_true, if_false, List.nil_append, List.append_assoc]
        rw [minusAt.eq_2]
        rintro _ ⟨⟩
        simp at hd
    simp only [numeral?, hminus, wholeAt?_append hwhole hzero hfrac, fractionAt?_append hfs hexp,
      exponentAt?_append hes hcs, Option.bind_eq_bind, Option.bind_some, Option.pure_def]

theorem head_numeral {x : Numeral} {c : Char} {w : List Char} (h : SpellsNumeral x (c :: w)) :
    c.isDigit = true ∨ c = '-' := by
  generalize hw : c :: w = xs at h
  cases h with
  | @parts minus whole _ _ _ _ hwhole =>
    cases minus with
    | true =>
      cases hw
      exact .inr rfl
    | false =>
      obtain ⟨d, ds, rfl⟩ := List.exists_cons_of_ne_nil hwhole.1
      cases hw
      exact .inl (hwhole.2 _ List.mem_cons_self)

theorem next_append {t : Token} {c : Char} {w cs : List Char} (h : SpellsToken t (c :: w))
    (hend : ∀ n, t = .number n → EndsNumber cs) : next c (w ++ cs) = some (t, cs) := by
  generalize hw : c :: w = v at h
  cases h with
  | number hx =>
    subst hw
    have hc := head_numeral hx
    have hne : ∀ d ∈ ['[', ']', '{', '}', ',', ':', '"', 'n', 't', 'f'], c ≠ d := by
      rintro d hd rfl
      obtain hc | rfl := hc
      · have hall : ∀ d ∈ ['[', ']', '{', '}', ',', ':', '"', 'n', 't', 'f'],
            d.isDigit = false := by simp
        rw [hall _ hd] at hc
        cases hc
      · revert hd
        decide
    simp only [List.forall_mem_cons] at hne
    obtain ⟨h₁, h₂, h₃, h₄, h₅, h₆, h₇, hn, ht, hf, -⟩ := hne
    rw [next.eq_11 _ _ h₁ h₂ h₃ h₄ h₅ h₆ h₇ (fun _ h _ => hn h) (fun _ h _ => ht h)
      (fun _ h _ => hf h), ← List.cons_append, numeral?_append hx (hend _ rfl)]
    rfl
  | @text s cs' hs =>
    cases hw
    obtain ⟨us, hus, hchars⟩ := exists_units hs
    rw [List.append_assoc, List.singleton_append, next, units?_append hus]
    simp only [Option.bind_eq_bind, Option.bind_some, Option.pure_def, textOf, hchars,
      String.ofList_toList]
  | bool b => cases b <;> cases hw <;> rfl
  | openList | closeList | openObject | closeObject | comma | colon | null =>
    cases hw
    rfl

theorem le_foldl_digits (ds : List Char) (n : Nat) :
    n ≤ ds.foldl (fun n d => n * 10 + (d.toNat - '0'.toNat)) n := by
  induction ds generalizing n with
  | nil => exact Nat.le_refl n
  | cons d ds ih =>
    have hstep : n ≤ n * 10 + (d.toNat - '0'.toNat) := by omega
    exact Nat.le_trans hstep (ih _)

theorem significand_eq {ds : List Char} {n : Nat}
    (h : ds.foldl (fun n d => n * 10 + (d.toNat - '0'.toNat)) n < UInt64.size) :
    significand n ds = (ds.foldl (fun n d => n * 10 + (d.toNat - '0'.toNat)) n, []) := by
  induction ds generalizing n with
  | nil => rfl
  | cons d ds ih =>
    rw [List.foldl_cons] at h ⊢
    have hstep : n * 10 + (d.toNat - '0'.toNat) < UInt64.size :=
      Nat.lt_of_le_of_lt (le_foldl_digits ds _) h
    simp only [significand, hstep, if_true]
    exact ih h

theorem spells_natural {n : Nat} (hn : n < UInt64.size) :
    SpellsToken (.number (some (.integer n))) (Nat.toDigits 10 n) := by
  have hvalue : Number.valueOf (Nat.toDigits 10 n) = n := Number.valueOf_toDigits n
  have hall : significand 0 (Nat.toDigits 10 n) = (n, []) := by
    have hlt : Number.valueOf (Nat.toDigits 10 n) < UInt64.size := by rwa [hvalue]
    have heq : significand 0 (Nat.toDigits 10 n) = (Number.valueOf (Nat.toDigits 10 n), []) :=
      significand_eq hlt
    rwa [hvalue] at heq
  have hnumber : Numeral.number ⟨false, Nat.toDigits 10 n, none, none⟩ = some (.integer n) := by
    simp [Numeral.number, hall]
  have hdigits : IsDigits (Nat.toDigits 10 n) :=
    ⟨Nat.toDigits_ne_nil, fun d hd => Nat.isDigit_of_mem_toDigits (by decide) (by decide) hd⟩
  have hnumeral : SpellsNumeral ⟨false, Nat.toDigits 10 n, none, none⟩ (Nat.toDigits 10 n) := by
    have hparts : SpellsNumeral ⟨false, Nat.toDigits 10 n, none, none⟩
        ([] ++ (Nat.toDigits 10 n ++ ([] ++ []))) :=
      .parts hdigits Number.toDigits_of_head_zero .none .none
    simpa using hparts
  rw [← hnumber]
  exact .number hnumeral

end Token

open Token in
theorem tokens_spaces {s : List Char} (hs : Spaces s) (cs : List Char) :
    tokens (s ++ cs) = tokens cs := by
  induction s with
  | nil => rfl
  | cons c s ih =>
    obtain ⟨hc, hs⟩ := List.forall_mem_cons.mp hs
    have hspace : isSpace c = true := by
      have hall : ∀ c ∈ [' ', '\n', '\t', '\r'], isSpace c = true := by simp [isSpace]
      exact hall c hc
    rw [List.cons_append, tokens, if_pos hspace]
    exact ih hs

open Token in
theorem tokens_next {c : Char} {cs rest : List Char} {t : Token} (hspace : isSpace c = false)
    (h : next c cs = some (t, rest)) : tokens (c :: cs) = t :: tokens rest := by
  rw [tokens, if_neg (by simp [hspace])]
  split
  · next hnone =>
    rw [h] at hnone
    cases hnone
  · next t' rest' hsome =>
    rw [h] at hsome
    cases hsome
    rfl

theorem SpellsToken.exists_head {t : Token} {w : List Char} (h : SpellsToken t w) :
    ∃ c cs, w = c :: cs ∧ Token.isSpace c = false := by
  cases h with
  | number hx =>
    cases w with
    | nil =>
      generalize hw : ([] : List Char) = xs at hx
      cases hx with
      | parts hwhole =>
        have hnil := List.append_eq_nil_iff.mp (List.append_eq_nil_iff.mp hw.symm).2
        exact absurd hnil.1 hwhole.1
    | cons c cs =>
      refine ⟨c, cs, rfl, ?_⟩
      obtain hc | rfl := Token.head_numeral hx
      · have hne : ∀ d, Token.isSpace d = true → d.isDigit = false := by
          intro d hd
          simp only [Token.isSpace, Bool.or_eq_true, decide_eq_true_eq] at hd
          obtain ((rfl | rfl) | rfl) | rfl := hd <;> decide
        cases hspace : Token.isSpace c with
        | false => rfl
        | true =>
          rw [hne c hspace] at hc
          cases hc
      · decide
  | bool b => cases b <;> exact ⟨_, _, rfl, by decide⟩
  | openList | closeList | openObject | closeObject | comma | colon | null | text =>
    exact ⟨_, _, rfl, by decide⟩

open Token in
theorem tokens_of_shows {ts : List Token} {cs : List Char} (h : Shows ts cs) :
    tokens cs = ts := by
  induction h with
  | @nil s hs =>
    have htokens := tokens_spaces hs []
    rwa [List.append_nil, tokens] at htokens
  | @cons t ts s w cs hs hw hend _ ih =>
    obtain ⟨c, v, rfl, hspace⟩ := hw.exists_head
    rw [tokens_spaces hs, List.cons_append, tokens_next hspace (next_append hw hend), ih]
  | @broken us m ts s w cs hs hw hm _ ih =>
    have hnext : next '"' (w ++ '"' :: cs) = some (.brokenText m, cs) := by
      rw [next, units?_append hw, ← hm]
      rfl
    rw [tokens_spaces hs, tokens_next (by decide) hnext, ih]

theorem tokens_of_spells {ts : List Token} {cs : List Char} (h : Spells ts cs) :
    tokens cs = ts :=
  tokens_of_shows h.shows

theorem Spells.exists_last {ts : List Token} {cs : List Char}
    (h : Spells (ts ++ [.closeObject]) cs) :
    ∃ front s, cs = front ++ '}' :: s ∧ Spaces s ∧
      Spells (ts ++ [.closeObject]) (front ++ ['}']) := by
  induction ts generalizing cs with
  | nil =>
    cases h with
    | @cons _ _ s w cs hs hw _ hcs =>
      cases hw
      cases hcs with
      | nil hend =>
        have hnil : Spells [] [] := .nil (by simp [Spaces])
        exact ⟨s, cs, rfl, hend, .cons hs .closeObject (by simp) hnil⟩
  | cons t ts ih =>
    cases h with
    | @cons _ _ s w cs hs hw hend hcs =>
      obtain ⟨front, s', rfl, hs', hfront⟩ := ih hcs
      refine ⟨s ++ (w ++ front), s', by simp, hs', ?_⟩
      rw [List.append_assoc, List.append_assoc]
      refine .cons hs hw (fun n hn => ?_) hfront
      have hhead : (front ++ ['}']).head? = (front ++ '}' :: s').head? := by
        cases front <;> rfl
      rw [EndsNumber, hhead]
      exact hend n hn

end Spintax.Json
