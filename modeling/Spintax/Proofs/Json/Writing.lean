import Mathlib.Data.List.Forall2
import Spintax.Proofs.Json.Reading
import Spintax.Proofs.Json.Spelling

namespace Spintax.Json

theorem lineFeed_notMem_escape (c : Char) : '\n' ∉ escape c := by
  have hdigit : ∀ n < 16, hexDigit n ≠ '\n' := by decide
  unfold escape
  split_ifs with _ _ hfeed _ _ _ _ hcontrol
  all_goals try decide
  · have hlt : c.toNat < 32 := hcontrol
    have hhigh := hdigit (c.toNat / 16) (by omega)
    have hlow := hdigit (c.toNat % 16) (by omega)
    simp [hhigh.symm, hlow.symm]
  · simpa using Ne.symm hfeed

theorem lineFeed_notMem_quote (s : String) : '\n' ∉ (quote s).toList := by
  simp [quote, lineFeed_notMem_escape]

theorem spellsChar_escape (c : Char) : SpellsChar c (escape c) := by
  unfold escape
  split_ifs with h₁ h₂ h₃ h₄ h₅ h₆ h₇ hcontrol
  all_goals try subst c
  all_goals try exact .short (by decide)
  · have hlt : c.toNat < 32 := hcontrol
    have hzero : IsHexDigit 0 '0' := ⟨by decide, .inl (by decide)⟩
    have hhigh : IsHexDigit (c.toNat / 16) (hexDigit (c.toNat / 16)) := ⟨by omega, .inl rfl⟩
    have hlow : IsHexDigit (c.toNat % 16) (hexDigit (c.toNat % 16)) := ⟨by omega, .inl rfl⟩
    have hunit := SpellsUnit.digits hzero hzero hhigh hlow
    have hc : (0 * 16 + 0) * 256 + c.toNat / 16 * 16 + c.toNat % 16 = c.toNat := by omega
    rw [hc] at hunit
    exact .unit hunit
  · exact .plain (Char.not_lt.mp hcontrol) h₁ h₂

theorem spells_quote (s : String) : SpellsToken (.text s) (quote s).toList := by
  have hchars : ∀ cs : List Char, SpellsChars cs (cs.flatMap escape) := by
    intro cs
    induction cs with
    | nil => exact .nil
    | cons c cs ih => exact .cons (spellsChar_escape c) ih
  rw [quote, String.toList_ofList]
  exact .text (hchars s.toList)

theorem Spells.token {t : Token} {ts : List Token} {w cs : List Char} (hw : SpellsToken t w)
    (ht : ∀ n, t ≠ .number n) (h : Spells ts cs) : Spells (t :: ts) (w ++ cs) :=
  .cons (s := []) (by simp [Spaces]) hw (fun n hn => absurd hn (ht n)) h

/-- The characters spell the tokens, whatever comes after them. It must only not go on with a
number at their end. -/
def Emits (w : List Char) (ts : List Token) : Prop :=
  ∀ us cs, EndsNumber cs → Spells us cs → Spells (ts ++ us) (w ++ cs)

section emits

variable {t : Token} {ts ts' : List Token} {w w' : List Char}

theorem emits_token (hw : SpellsToken t w) : Emits w [t] :=
  fun _ _ hend h => .cons (s := []) (by simp [Spaces]) hw (fun _ _ => hend) h

theorem Emits.cons (hw : SpellsToken t w) (ht : ∀ n, t ≠ .number n) (h : Emits w' ts) :
    Emits (w ++ w') (t :: ts) := by
  intro us cs hend hcs
  rw [List.append_assoc]
  exact .token hw ht (h us cs hend hcs)

theorem endsNumber_cons {c : Char} (hc : c ∈ [',', ']', '}']) (cs : List Char) :
    EndsNumber (c :: cs) := by
  have hall : ∀ c ∈ [',', ']', '}'], c.isDigit = false ∧ c ≠ '.' ∧ c ≠ 'e' ∧ c ≠ 'E' := by simp
  exact fun d hd => by
    cases hd
    exact hall c hc

theorem Emits.append {c : Char} (hc : c ∈ [',', ']', '}']) (hw : Emits w ts)
    (h : Emits (c :: w') ts') : Emits (w ++ c :: w') (ts ++ ts') := by
  intro us cs hend hcs
  rw [List.append_assoc, List.append_assoc]
  exact hw _ _ (endsNumber_cons hc _) (h us cs hend hcs)

theorem Emits.comma (hw : Emits w ts) (h : Emits w' ts') :
    Emits (w ++ ',' :: w') (ts ++ .comma :: ts') :=
  hw.append (by simp) (.cons .comma (by simp) h)

end emits

def Value.Writes (v : Value) (ts : List Token) : Prop :=
  Emits v.compact.toList ts

theorem writes_text (s : String) : (Value.text s).Writes [.text s] := by
  rw [Value.Writes, Value.compact]
  exact emits_token (spells_quote s)

theorem writes_null : Value.null.Writes [.null] :=
  emits_token .null

theorem toList_compact_natural (n : Nat) : (Value.ofNat n).compact.toList = Nat.toDigits 10 n := by
  rw [Value.ofNat, Value.compact, Number.describe]
  exact Nat.toList_repr

theorem writes_natural {n : Nat} (hn : n < UInt64.size) :
    (Value.ofNat n).Writes [.number (some (.integer n))] := by
  rw [Value.Writes, toList_compact_natural]
  exact emits_token (Token.spells_natural hn)

theorem emits_items {vs : List Value} {vts : List (List Token)}
    (h : List.Forall₂ Value.Writes vs vts) :
    Emits (Value.compactItems vs).toList (itemTokens vts) := by
  induction h with
  | nil => exact fun us cs _ hcs => hcs
  | @cons v ts vs vts hv htail ih =>
    cases htail with
    | nil => simpa [itemTokens, Value.compactItems, Value.Writes] using hv
    | cons hv' htail =>
      have hitems := Emits.comma hv ih
      simpa [itemTokens, Value.compactItems] using hitems

theorem writes_list {vs : List Value} {vts : List (List Token)}
    (h : List.Forall₂ Value.Writes vs vts) : (Value.list vs).Writes (listTokens vts) := by
  have hclose := (emits_items h).append (by simp) (emits_token .closeList)
  have hopen := Emits.cons .openList (by simp) hclose
  simpa [Value.Writes, listTokens, Value.compact] using hopen

theorem emits_member {k : String} {v : Value} {ts : List Token} (hv : v.Writes ts) :
    Emits (quote k ++ ":" ++ v.compact).toList (.text k :: .colon :: ts) := by
  have hname := Emits.cons (spells_quote k) (by simp) (Emits.cons .colon (by simp) hv)
  simpa using hname

theorem emits_members {ms : List (String × Value)} {mts : List (String × List Token)}
    (h : List.Forall₂ (fun m mt => m.1 = mt.1 ∧ m.2.Writes mt.2) ms mts) :
    Emits (Value.compactMembers ms).toList (memberTokens mts) := by
  induction h with
  | nil => exact fun us cs _ hcs => hcs
  | @cons m mt ms mts hm htail ih =>
    obtain ⟨k, v⟩ := m
    obtain ⟨_, ts⟩ := mt
    obtain ⟨rfl, hv⟩ := hm
    have hmember : Emits _ (.text k :: .colon :: ts) := emits_member (k := k) hv
    cases htail with
    | nil => simpa [memberTokens, Value.compactMembers] using hmember
    | cons hm' htail =>
      have hmembers := hmember.comma ih
      simpa [memberTokens, Value.compactMembers] using hmembers

theorem writes_object {ms : List (String × Value)} {mts : List (String × List Token)}
    (h : List.Forall₂ (fun m mt => m.1 = mt.1 ∧ m.2.Writes mt.2) ms mts) :
    (Value.object ms).Writes (objectTokens mts) := by
  have hclose := (emits_members h).append (by simp) (emits_token .closeObject)
  have hopen := Emits.cons .openObject (by simp) hclose
  simpa [Value.Writes, objectTokens, Value.compact] using hopen

theorem Value.Writes.spells {v : Value} {ts : List Token} (h : v.Writes ts) :
    Spells ts v.compact.toList := by
  have hspells := h [] [] (by simp [EndsNumber]) (.nil (by simp [Spaces]))
  rwa [List.append_nil, List.append_nil] at hspells

theorem lineFeed_notMem_natural (n : Nat) : '\n' ∉ (Value.ofNat n).compact.toList := by
  rw [toList_compact_natural]
  intro hfeed
  have hdigit := Nat.isDigit_of_mem_toDigits (by decide) (by decide) hfeed
  cases hdigit

theorem lineFeed_notMem_items {vs : List Value} (h : ∀ v ∈ vs, '\n' ∉ v.compact.toList) :
    '\n' ∉ (Value.compactItems vs).toList := by
  induction vs with
  | nil => simp [Value.compactItems]
  | cons v vs ih =>
    obtain ⟨hv, hvs⟩ := List.forall_mem_cons.mp h
    have hrest := ih hvs
    cases vs with
    | nil => simpa [Value.compactItems] using hv
    | cons v' vs => simp [Value.compactItems, hv, hrest]

theorem lineFeed_notMem_members {ms : List (String × Value)}
    (h : ∀ m ∈ ms, '\n' ∉ m.2.compact.toList) : '\n' ∉ (Value.compactMembers ms).toList := by
  induction ms with
  | nil => simp [Value.compactMembers]
  | cons m ms ih =>
    obtain ⟨hm, hms⟩ := List.forall_mem_cons.mp h
    have hrest := ih hms
    cases ms with
    | nil => simp [Value.compactMembers, lineFeed_notMem_quote, hm]
    | cons m' ms => simp [Value.compactMembers, lineFeed_notMem_quote, hm, hrest]

end Spintax.Json
