import Spintax.Proofs.Template.Grammar

namespace Spintax.Lexeme

open Grammar

def Reads (inside : Bool) (cs : List Char) (x : Lexeme) : Prop :=
  ∃ c rest, cs = c :: rest ∧ read inside c rest = .ok x

inductive Spelled (inside : Bool) : Lexeme → Prop
  | letter {w rest : List Char} {c : Char} (h : Letter inside w c rest) :
      Spelled inside ⟨.char c, w, rest⟩
  | slot {name : String} {rest : List Char} (h : isIdentifier name.toList) :
      Spelled inside ⟨.slot name, braced name, rest⟩
  | opening {rest : List Char} : Spelled inside ⟨.opening, ['{'], rest⟩
  | ending (stop : Char) {weight : Option UInt32} {w rest : List Char}
      (hs : stop = '|' ∨ stop = '}') (he : Ending stop weight w) :
      Spelled inside ⟨.ending weight (stop = '}'), w, rest⟩

theorem takeWhile_stop {p : Char → Bool} {w : List Char} {c : Char} (hw : ∀ b ∈ w, p b)
    (hc : p c = false) (rest : List Char) : (w ++ c :: rest).takeWhile p = w := by
  rw [List.takeWhile_append_of_pos hw, List.takeWhile_cons_of_neg (by simp [hc]), List.append_nil]

theorem dropWhile_stop {p : Char → Bool} {w : List Char} {c : Char} (hw : ∀ b ∈ w, p b)
    (hc : p c = false) (rest : List Char) : (w ++ c :: rest).dropWhile p = c :: rest := by
  rw [List.dropWhile_append_of_pos hw, List.dropWhile_cons_of_neg (by simp [hc])]

theorem weight?_eq_some {digits : List Char} {n : UInt32} :
    weight? digits = some n ↔ Number.valueOf digits = n.toNat ∧ 0 < n.toNat := by
  unfold weight?
  constructor
  · intro h
    dsimp only at h
    split at h
    · next hv =>
      cases h
      rw [UInt32.toNat_ofNat_of_lt' hv.2]
      exact ⟨rfl, hv.1⟩
    · cases h
  · rintro ⟨hv, hpos⟩
    dsimp only
    rw [hv, if_pos ⟨hpos, n.toNat_lt_size⟩, UInt32.ofNat_toNat]

theorem weightAhead_iff {rest : List Char} :
    WeightAhead rest ↔ rest.takeWhile Char.isDigit ≠ [] ∧
      ∃ c more, rest.dropWhile Char.isDigit = c :: more ∧ (c = '|' ∨ c = '}') := by
  constructor
  · rintro ⟨digits, c, more, rfl, hne, hd, hc⟩
    have hcd : c.isDigit = false := by obtain rfl | rfl := hc <;> decide
    rw [takeWhile_stop hd hcd, dropWhile_stop hd hcd]
    exact ⟨hne, c, more, rfl, hc⟩
  · rintro ⟨hne, c, more, hdrop, hc⟩
    refine ⟨rest.takeWhile Char.isDigit, c, more, ?_, hne, ?_, hc⟩
    · rw [← hdrop, List.takeWhile_append_dropWhile]
    · intro d hd
      exact List.all_eq_true.mp List.all_takeWhile d hd

theorem afterCaret_letter {rest : List Char} (h : ¬ WeightAhead rest) :
    afterCaret rest = .ok ⟨.char '^', ['^'], rest⟩ := by
  rw [weightAhead_iff] at h
  unfold afterCaret
  dsimp only
  split
  · rfl
  · next hne =>
    have hne' : rest.takeWhile Char.isDigit ≠ [] := by simpa using hne
    split
    · next c more hdrop =>
      have hc : ¬ (c = '|' ∨ c = '}') := fun hc => h ⟨hne', c, more, hdrop, hc⟩
      rw [if_neg (by simpa using hc)]
    · rfl

theorem afterCaret_weight {digits : List Char} {stop : Char} {n : UInt32}
    (hd : ∀ d ∈ digits, d.isDigit) (hne : digits ≠ []) (hs : stop = '|' ∨ stop = '}')
    (hn : weight? digits = some n) (rest : List Char) :
    afterCaret (digits ++ stop :: rest) =
      .ok ⟨.ending (some n) (stop = '}'), '^' :: (digits ++ [stop]), rest⟩ := by
  have hsd : stop.isDigit = false := by obtain rfl | rfl := hs <;> decide
  simp only [afterCaret, takeWhile_stop hd hsd, dropWhile_stop hd hsd, hn, hs, ↓reduceIte,
    List.isEmpty_eq_false_iff.mpr hne, Bool.false_eq_true, Bool.or_eq_true, decide_eq_true_eq]

theorem afterCaret_spelled {rest : List Char} {x : Lexeme} (h : afterCaret rest = .ok x) :
    Spelled true x := by
  by_cases hw : WeightAhead rest
  · obtain ⟨digits, stop, more, rfl, hne, hd, hs⟩ := hw
    cases hn : weight? digits with
    | some n =>
      rw [afterCaret_weight hd hne hs hn] at h
      cases h
      have hv := weight?_eq_some.mp hn
      exact .ending stop hs (.weighted hd hne hv.1 hv.2)
    | none =>
      have hsd : stop.isDigit = false := by obtain rfl | rfl := hs <;> decide
      simp [afterCaret, takeWhile_stop hd hsd, dropWhile_stop hd hsd, hn, hs, hne] at h
  · rw [afterCaret_letter hw] at h
    cases h
    exact .letter (.plain (by decide) fun _ => ⟨by decide, fun _ => hw⟩)

theorem afterBackslash_spelled (inside : Bool) (cs : List Char) :
    Spelled inside (afterBackslash cs) := by
  cases cs with
  | nil => exact .letter (.backslash (by simp))
  | cons c cs =>
    rw [afterBackslash]
    split
    · next hc => exact .letter (.escaped hc)
    · next hc => exact .letter (.backslash (by simpa using hc))

theorem afterBrace_spelled {inside : Bool} {cs : List Char} {x : Lexeme}
    (h : afterBrace cs = .ok x) : Spelled inside x := by
  unfold afterBrace at h
  split at h
  case h_1 cs =>
    unfold afterBraces at h
    dsimp only at h
    split at h
    case h_1 rest _ =>
      split at h
      · cases h
      · split at h
        · next hid =>
          cases h
          rw [← String.toList_ofList (l := cs.takeWhile isSlotBody)] at hid
          have hs : Spelled inside ⟨_, _, rest⟩ := .slot hid
          rwa [braced, String.toList_ofList] at hs
        · cases h
    case h_4 =>
      cases h
      exact .opening
    all_goals
      split at h
      · cases h
      · cases h
        exact .opening
  case h_2 =>
    cases h
    exact .opening

theorem Reads.spelled {inside : Bool} {cs : List Char} {x : Lexeme} (h : Reads inside cs x) :
    Spelled inside x := by
  obtain ⟨c, rest, -, h⟩ := h
  unfold read at h
  split at h
  · cases h
    exact afterBackslash_spelled inside rest
  next hbackslash =>
  split at h
  · exact afterBrace_spelled h
  next hopen =>
  split at h
  · cases h
    exact .ending '}' (.inr rfl) .bare
  next hclose =>
  split at h
  · cases h
    exact .ending '|' (.inl rfl) .bare
  next hbar =>
  split at h
  · next hcaret =>
    have hin : inside = true := by simp_all
    subst hin
    exact afterCaret_spelled h
  · next hcaret =>
    cases h
    refine .letter (.plain ⟨hopen, hclose, hbackslash⟩ fun hin => ⟨?_, fun hc => ?_⟩)
    · rintro rfl
      exact hbar (by simp [hin])
    · exact absurd (by simp [hc, hin]) hcaret

theorem Reads.append {inside : Bool} {cs : List Char} {x : Lexeme} (h : Reads inside cs x) :
    x.written ++ x.rest = cs := by
  obtain ⟨c, rest, rfl, h⟩ := h
  exact (read_heads h).append

theorem letter_reads {inside : Bool} {w rest : List Char} {c : Char}
    (h : Letter inside w c rest) : Reads inside (w ++ rest) ⟨.char c, w, rest⟩ := by
  cases h with
  | escaped hc => exact ⟨_, _, rfl, by simp [read, afterBackslash, hc]⟩
  | backslash hr =>
    refine ⟨_, _, rfl, ?_⟩
    cases rest with
    | nil => rfl
    | cons c rest => simp [read, afterBackslash, hr c rfl]
  | plain hc hi =>
    refine ⟨_, _, rfl, ?_⟩
    by_cases hcaret : c = '^' ∧ inside = true
    · obtain ⟨rfl, hin⟩ := hcaret
      simpa [read, hin] using afterCaret_letter ((hi hin).2 rfl)
    · have hbar : ¬ (c = '|' ∧ inside = true) := fun h => (hi h.2).1 h.1
      simp [read, hc, hcaret, hbar]

theorem isSlotBody_of_isIdentifier {cs : List Char} (h : isIdentifier cs) :
    ∀ c ∈ cs, isSlotBody c := by
  have hpart : ∀ c, isNamePart c → isSlotBody c := by
    intro c hc
    have hne : ∀ d : Char, isNamePart d = false → c ≠ d := by
      rintro d hd rfl
      simp [hc] at hd
    simp [isSlotBody, hne '{' (by decide), hne '}' (by decide), hne '|' (by decide),
      hne '\\' (by decide)]
  cases cs with
  | nil => simp
  | cons c cs =>
    simp only [isIdentifier, Bool.and_eq_true, List.all_eq_true] at h
    have hc : isNamePart c := by
      have hs := h.1
      simp only [isNameStart, Bool.or_eq_true] at hs
      obtain hs | hs := hs <;> simp [isNamePart, Char.isAlphanum, hs]
    intro b hb
    obtain rfl | hb := List.mem_cons.mp hb
    · exact hpart b hc
    · exact hpart b (h.2 b hb)

theorem slot_reads {inside : Bool} {name : String} {rest : List Char}
    (h : isIdentifier name.toList) :
    Reads inside (braced name ++ rest) ⟨.slot name, braced name, rest⟩ := by
  have hbody := isSlotBody_of_isIdentifier h
  have hne : name.toList ≠ [] := by
    intro hnil
    simp [hnil, isIdentifier] at h
  have hstop : isSlotBody '}' = false := by decide
  have hw := takeWhile_stop hbody hstop ('}' :: rest)
  have hd := dropWhile_stop hbody hstop ('}' :: rest)
  refine ⟨'{', '{' :: (name.toList ++ '}' :: '}' :: rest), by simp [braced], ?_⟩
  simp only [read, Char.reduceEq, ↓reduceIte, afterBrace, afterBraces, hw, hd, h,
    List.isEmpty_eq_false_iff.mpr hne, Bool.false_eq_true, String.ofList_toList, braced]

theorem opening_reads {inside : Bool} {rest : List Char}
    (h : ∀ cs, rest = '{' :: cs → ClosesLate cs) :
    Reads inside ('{' :: rest) ⟨.opening, ['{'], rest⟩ := by
  refine ⟨_, _, rfl, ?_⟩
  simp only [read, Char.reduceEq, ↓reduceIte, afterBrace]
  split
  case h_1 cs =>
    obtain ⟨w, c, more, rfl, hw, hc, hne⟩ := h cs rfl
    simp only [afterBraces, takeWhile_stop hw hc, dropWhile_stop hw hc]
    split
    · next heq => exact absurd (List.cons.inj heq).1 hne
    · next heq => exact absurd (List.cons.inj heq).1 hne
    · next heq => cases heq
    · rfl
  case h_2 => rfl

theorem ending_reads {stop : Char} {weight : Option UInt32} {w rest : List Char}
    (hs : stop = '|' ∨ stop = '}') (h : Ending stop weight w) :
    Reads true (w ++ rest) ⟨.ending weight (stop = '}'), w, rest⟩ := by
  cases h with
  | bare =>
    refine ⟨_, _, rfl, ?_⟩
    obtain rfl | rfl := hs <;> simp [read]
  | weighted hd hne hn hpos =>
    refine ⟨_, _, rfl, ?_⟩
    have hw := afterCaret_weight hd hne hs (weight?_eq_some.mpr ⟨hn, hpos⟩) rest
    simpa [read] using hw

end Spintax.Lexeme
