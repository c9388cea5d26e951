import Spintax.Proofs.Config.Layers
import Spintax.Proofs.Number.Digits

namespace Spintax

theorem Number.isDigit_of_mem_repr {n : Nat} {c : Char} (h : c ∈ n.repr.toList) : c.isDigit := by
  rw [Nat.toList_repr] at h
  exact Nat.isDigit_of_mem_toDigits (by decide) (by decide) h

theorem Text.toLower_of_isDigit {c : Char} (h : c.isDigit) : c.toLower = c := by
  refine dif_neg fun hcapital => ?_
  have hdigit : c.val ≤ '9'.val := (Bool.and_eq_true_iff.mp h).2 |> of_decide_eq_true
  have hle : 'A'.val ≤ '9'.val := UInt32.le_trans hcapital.1 hdigit
  exact absurd hle (by decide)

theorem Text.lower_repr (n : Nat) : Text.lower n.repr = n.repr := by
  rw [Text.lower, ← String.toList_inj, String.toList_map]
  have hsame : ∀ c ∈ n.repr.toList, c.toLower = id c :=
    fun c hc => toLower_of_isDigit (Number.isDigit_of_mem_repr hc)
  rw [List.map_congr_left hsame, List.map_id]

theorem Number.integer?_repr {n : Nat} (h : n < 2 ^ 63) :
    integer? n.repr.toList = some (n : Int) := by
  have hdigits : ∀ c ∈ n.repr.toList, c.isDigit := fun c hc => isDigit_of_mem_repr hc
  have hsign : signAt n.repr.toList = (false, n.repr.toList) := by
    rw [signAt.eq_def]
    split
    · next cs hcs => exact absurd (hdigits '-' (by rw [hcs]; exact List.mem_cons_self)) (by decide)
    · next cs hcs => exact absurd (hdigits '+' (by rw [hcs]; exact List.mem_cons_self)) (by decide)
    · rfl
  have hnatural : natural? n.repr.toList = some n := by
    have hempty : n.repr.toList.isEmpty = false := by
      rw [Nat.toList_repr, List.isEmpty_eq_false_iff]
      exact Nat.toDigits_ne_nil
    have hall : n.repr.toList.all Char.isDigit = true := List.all_eq_true.mpr hdigits
    rw [natural?, hempty, hall, Nat.toList_repr, valueOf_toDigits]
    rfl
  rw [integer?, hsign]
  simp only [hnatural, Option.bind_eq_bind, Option.bind_some, Bool.false_eq_true, if_false]
  exact if_pos h

namespace Config

open Value

theorem Value.ofText_repr {n : Nat} (h : n < 2 ^ 63) : Value.ofText n.repr = .integer n := by
  have hne {s : String} (hs : 'e' ∈ s.toList) : n.repr ≠ s := by
    rintro rfl
    exact absurd (Number.isDigit_of_mem_repr hs) (by decide)
  have htrue : n.repr ≠ "true" := hne (by simp)
  have hfalse : n.repr ≠ "false" := hne (by simp)
  rw [Value.ofText, Text.lower_repr, if_neg htrue, if_neg hfalse, Number.integer?_repr h]

inductive Content where
  | number (n : Nat)
  | policy (policy : Policy)
  | exportFormat (format : ExportFormat)
  | level (name : String)
  | logFormat (format : LogFormat)
deriving DecidableEq, Repr

namespace Content

def spelling : Content → String
  | number n => n.repr
  | policy .strict => "strict"
  | policy .lenient => "lenient"
  | exportFormat .json => "json"
  | exportFormat .csv => "csv"
  | level name => name
  | logFormat format => format.name

def json : Content → Json.Value
  | number n => .ofNat n
  | c => .text c.spelling

end Content

namespace Setting

def isNumber : Setting → Bool
  | capacity | maxAge | concurrency | maxConcurrency => true
  | _ => false

def takes (k : Setting) : Content → Bool
  | .number n => k.isNumber && n < 2 ^ 63
  | .policy _ => k = policy
  | .exportFormat _ => k = exportFormat
  | .level _ => k = logLevel
  | .logFormat _ => k = logFormat

def read? (k : Setting) (v : Value) : Option Content :=
  match k with
  | capacity | maxAge | concurrency | maxConcurrency => v.natural?.map .number
  | policy => (v.oneOf? Settings.policies).map .policy
  | exportFormat => (v.oneOf? Settings.exportFormats).map .exportFormat
  | logLevel => v.text?.map .level
  | logFormat => (v.oneOf? Settings.logFormats).map .logFormat

variable {k : Setting} {c : Content}

theorem read?_integer (hk : k.isNumber) (n : Nat) : k.read? (.integer n) = some (.number n) := by
  have hread : k.read? (.integer n) = (Value.integer n).natural?.map .number := by
    cases k with
    | capacity | maxAge | concurrency | maxConcurrency => rfl
    | policy | exportFormat | logLevel | logFormat => cases hk
  rw [hread, natural?, if_pos (Int.natCast_nonneg n)]
  rfl

theorem read?_text (hk : k.takes c) (hc : ∀ n, c ≠ .number n) :
    k.read? (.text c.spelling) = some c := by
  cases c with
  | number n => exact absurd rfl (hc n)
  | policy p =>
    obtain rfl : k = policy := of_decide_eq_true hk
    cases p <;> decide +kernel
  | exportFormat f =>
    obtain rfl : k = exportFormat := of_decide_eq_true hk
    cases f <;> decide +kernel
  | level name =>
    obtain rfl : k = logLevel := of_decide_eq_true hk
    rfl
  | logFormat f =>
    obtain rfl : k = logFormat := of_decide_eq_true hk
    cases f <;> decide +kernel

theorem read?_ofJson (hk : k.takes c) : k.read? (.ofJson c.json) = some c := by
  cases c with
  | number n =>
    obtain ⟨hnumber, hn⟩ := Bool.and_eq_true_iff.mp hk
    have hbound : (n : Int) < 0x8000000000000000 := by
      have := of_decide_eq_true hn
      omega
    have hvalue : Value.ofJson (Content.number n).json = .integer n := by
      rw [Content.json, Json.Value.ofNat, Value.ofJson, if_pos hbound]
    rw [hvalue, read?_integer hnumber]
  | policy | exportFormat | level | logFormat =>
    have hvalue {c : Content} : Value.ofJson (.text c.spelling) = .text c.spelling := by
      rw [Value.ofJson]
    rw [Content.json, hvalue, read?_text hk]
    · simp
    · simp

theorem read?_ofText (hk : k.takes c)
    (hlevel : ∀ name, c = .level name → Value.ofText name = .text name) :
    k.read? (.ofText c.spelling) = some c := by
  have hword : (∀ n, c ≠ .number n) → Value.ofText c.spelling = .text c.spelling := by
    intro hc
    cases c with
    | number n => exact absurd rfl (hc n)
    | policy p => cases p <;> cbv
    | exportFormat f => cases f <;> cbv
    | level name => exact hlevel name rfl
    | logFormat f => cases f <;> cbv
  cases c with
  | number n =>
    obtain ⟨hnumber, hn⟩ := Bool.and_eq_true_iff.mp hk
    rw [Content.spelling, Value.ofText_repr (of_decide_eq_true hn), read?_integer hnumber]
  | policy | exportFormat | level | logFormat =>
    rw [hword, read?_text hk]
    all_goals simp

end Setting

end Config

end Spintax
