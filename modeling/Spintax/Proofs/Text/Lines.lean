import Spintax.Proofs.Text.ByteOrder
import Spintax.Text.Blank
import Spintax.Text.Lines

namespace Spintax.Text

section pieces

variable {α : Type} [DecidableEq α] {stop : α} {xs ys : List α}

theorem pieces_append (h : stop ∉ xs) :
    pieces stop (xs ++ stop :: ys) = xs :: pieces stop ys := by
  induction xs with
  | nil => rw [List.nil_append, pieces, if_pos rfl]
  | cons x xs ih =>
    rw [List.mem_cons, not_or] at h
    rw [List.cons_append, pieces, if_neg (Ne.symm h.1), ih h.2]

theorem pieces_flatMap {ps : List (List α)} (h : ∀ p ∈ ps, stop ∉ p) (ys : List α) :
    pieces stop (ps.flatMap (· ++ [stop]) ++ ys) = ps ++ pieces stop ys := by
  induction ps with
  | nil => rfl
  | cons p ps ih =>
    obtain ⟨hp, h⟩ := List.forall_mem_cons.mp h
    rw [List.flatMap_cons, List.append_assoc, List.append_assoc, List.singleton_append,
      pieces_append hp, ih h, List.cons_append]

theorem stop_notMem_pieces (xs : List α) : ∀ p ∈ pieces stop xs, stop ∉ p := by
  induction xs with
  | nil => simp [pieces]
  | cons x xs ih =>
    rw [pieces]
    split_ifs with hx
    · exact List.forall_mem_cons.mpr ⟨List.not_mem_nil, ih⟩
    · cases hps : pieces stop xs with
      | nil => simpa using Ne.symm hx
      | cons p ps =>
        rw [hps] at ih
        obtain ⟨hp, hps⟩ := List.forall_mem_cons.mp ih
        refine List.forall_mem_cons.mpr ⟨?_, hps⟩
        rw [List.mem_cons, not_or]
        exact ⟨Ne.symm hx, hp⟩

theorem flatMap_pieces (h : xs = [] ∨ xs.getLast? = some stop) :
    (pieces stop xs).flatMap (· ++ [stop]) = xs := by
  induction xs with
  | nil => rfl
  | cons x xs ih =>
    rw [pieces]
    have hend : (x :: xs).getLast? = some stop := by simpa using h
    split_ifs with hx
    · have hxs : xs = [] ∨ xs.getLast? = some stop := by
        cases xs with
        | nil => exact .inl rfl
        | cons y ys => exact .inr (by simpa using hend)
      rw [List.flatMap_cons, ih hxs, hx]
      rfl
    · cases xs with
      | nil =>
        simp only [List.getLast?_singleton, Option.some.injEq] at hend
        exact absurd hend hx
      | cons y ys =>
        have hjoin := ih (.inr (by simpa using hend))
        cases hps : pieces stop (y :: ys) with
        | nil =>
          rw [hps] at hjoin
          cases hjoin
        | cons p ps =>
          rw [hps] at hjoin
          rw [← hjoin]
          rfl

theorem pieces_append_of_ended (h : xs = [] ∨ xs.getLast? = some stop) :
    pieces stop (xs ++ ys) = pieces stop xs ++ pieces stop ys := by
  have hstop : ∀ p ∈ pieces stop xs, stop ∉ p := stop_notMem_pieces xs
  have hpieces := pieces_flatMap hstop ys
  rwa [flatMap_pieces h] at hpieces

theorem pieces_of_notMem (h : stop ∉ xs) (hne : xs ≠ []) : pieces stop xs = [xs] := by
  induction xs with
  | nil => exact absurd rfl hne
  | cons x xs ih =>
    rw [List.mem_cons, not_or] at h
    rw [pieces, if_neg (Ne.symm h.1)]
    cases xs with
    | nil => rfl
    | cons y ys => rw [ih h.2 (List.cons_ne_nil y ys)]

end pieces

theorem loop_toList (b : ByteArray) (i : Nat) (r : List UInt8) :
    ByteArray.toList.loop b i r = r.reverse ++ b.data.toList.drop i := by
  fun_induction ByteArray.toList.loop b i r with
  | case1 i r h ih =>
    have hi : i < b.data.toList.length := h
    have hget : b.get! i = b.data.toList[i] := getElem!_pos b.data i h
    rw [ih, List.reverse_cons, List.append_assoc, hget, List.singleton_append,
      ← List.drop_eq_getElem_cons hi]
  | case2 i r h =>
    have hi : b.data.toList.length ≤ i := Nat.le_of_not_lt h
    rw [List.drop_eq_nil_of_le hi, List.append_nil]

theorem toList_eq (b : ByteArray) : b.toList = b.data.toList := by
  rw [ByteArray.toList, loop_toList]
  rfl

theorem toList_append (b b' : ByteArray) : (b ++ b').toList = b.toList ++ b'.toList := by
  simp [toList_eq]

theorem toList_extract (b : ByteArray) (n : Nat) : (b.extract 0 n).toList = b.toList.take n := by
  simp [toList_eq]

theorem toList_toUTF8 (s : String) : s.toUTF8.toList = bytes s :=
  toList_eq s.toUTF8

theorem ofUtf8?_bytes (s : String) : ofUtf8? (bytes s) = some s := by
  have hs : (⟨(bytes s).toArray⟩ : ByteArray) = s.toByteArray := by rw [bytes]
  rw [ofUtf8?, hs, String.fromUTF8?, dif_pos s.isValidUTF8]
  rfl

theorem bytes_ne_nil {s : String} (h : s ≠ "") : bytes s ≠ [] := by
  intro hnil
  have hs := ofUtf8?_bytes s
  have hempty := ofUtf8?_bytes ""
  rw [hnil] at hs
  exact h (Option.some.inj (hs.symm.trans hempty))

theorem bytes_append (s t : String) : bytes (s ++ t) = bytes s ++ bytes t := by
  rw [bytes_eq, bytes_eq, bytes_eq, String.toList_append, List.flatMap_append]

theorem lineFeed_mem_utf8EncodeChar {c : Char} (h : 10 ∈ String.utf8EncodeChar c) : c = '\n' := by
  have hten : ∀ n : Nat, n < 256 → (10 : UInt8) = UInt8.ofNat n → n = 10 := by
    intro n hn he
    exact ((ofNat_eq_ofNat (by decide) hn).mp he).symm
  have hmax : c.val.toNat < 0x110000 := by
    have hvalid := c.valid
    simp only [UInt32.isValidChar, Nat.isValidChar] at hvalid
    omega
  unfold String.utf8EncodeChar at h
  have hc : c.val.toNat = 10 := by
    generalize c.val.toNat = n at h hmax
    simp only at h
    split_ifs at h <;> simp only [List.mem_cons, List.not_mem_nil, or_false] at h
    · exact hten n (by omega) h
    · obtain h | h := h <;> have h := hten _ (by omega) h <;> omega
    · obtain h | h | h := h <;> have h := hten _ (by omega) h <;> omega
    · obtain h | h | h | h := h <;> have h := hten _ (by omega) h <;> omega
  exact Char.ext (UInt32.toNat_inj.mp hc)

theorem lineFeed_notMem_bytes {s : String} (h : '\n' ∉ s.toList) : 10 ∉ bytes s := by
  rw [bytes_eq, List.mem_flatMap]
  rintro ⟨c, hc, hmem⟩
  exact h (lineFeed_mem_utf8EncodeChar hmem ▸ hc)

def Ended (bytes : List UInt8) : Prop :=
  bytes = [] ∨ bytes.getLast? = some 10

def joined (ls : List (List UInt8)) : List UInt8 :=
  ls.flatMap (· ++ [10])

theorem Ended.lines_append {x : List UInt8} (h : Ended x) (y : List UInt8) :
    lines (x ++ y) = lines x ++ lines y :=
  pieces_append_of_ended h

theorem lines_joined {ls : List (List UInt8)} (h : ∀ l ∈ ls, 10 ∉ l) : lines (joined ls) = ls := by
  have hpieces := pieces_flatMap h []
  rwa [List.append_nil, pieces, List.append_nil] at hpieces

/-- Lines and the text that they make up. The last line need not end with a line feed. -/
inductive Lined : List String → String → Prop
  | nil : Lined [] ""
  | last {l : String} (h : '\n' ∉ l.toList) (hne : l ≠ "") : Lined [l] l
  | cons {l : String} {ls : List String} {text : String} (h : '\n' ∉ l.toList)
      (hls : Lined ls text) : Lined (l :: ls) (l ++ "\n" ++ text)

theorem Lined.lines {ls : List String} {text : String} (h : Lined ls text) :
    lines (bytes text) = ls.map bytes := by
  induction h with
  | nil => rfl
  | last h hne => exact pieces_of_notMem (lineFeed_notMem_bytes h) (bytes_ne_nil hne)
  | @cons l ls text h hls ih =>
    have hfeed : bytes "\n" = [10] := by decide
    rw [bytes_append, bytes_append, hfeed, List.append_assoc, List.map_cons, ← ih]
    exact pieces_append (lineFeed_notMem_bytes h)

theorem lined_join {ls : List String} (h : ∀ l ∈ ls, '\n' ∉ l.toList) :
    Lined ls (String.join (ls.map (· ++ "\n"))) := by
  induction ls with
  | nil => exact .nil
  | cons l ls ih =>
    obtain ⟨hl, h⟩ := List.forall_mem_cons.mp h
    rw [List.map_cons, String.join_cons]
    exact .cons hl (ih h)

theorem dropWhile_blank {cs ds : List Char} (hcs : ∀ c ∈ cs, isBlank c = true)
    (hds : ∀ c ∈ ds.head?, isBlank c = false) : (cs ++ ds).dropWhile isBlank = ds := by
  rw [List.dropWhile_append_of_pos hcs]
  cases ds with
  | nil => rfl
  | cons d ds => rw [List.dropWhile_cons_of_neg (by simp [hds d rfl])]

theorem trimChars_append {before cs after : List Char}
    (hbefore : ∀ c ∈ before, isBlank c = true) (hafter : ∀ c ∈ after, isBlank c = true)
    (hhead : ∀ c ∈ cs.head?, isBlank c = false) (hlast : ∀ c ∈ cs.getLast?, isBlank c = false)
    (hne : cs ≠ []) : trimChars (before ++ (cs ++ after)) = cs := by
  have hcs : ∀ c ∈ (cs ++ after).head?, isBlank c = false := by
    rwa [List.head?_append_of_ne_nil _ hne]
  rw [trimChars, dropWhile_blank hbefore hcs, dropBlankEnd, List.reverse_append, dropWhile_blank,
    List.reverse_reverse]
  · simpa using hafter
  · rwa [List.head?_reverse]

theorem trimChars_blank {cs : List Char} (h : ∀ c ∈ cs, isBlank c = true) : trimChars cs = [] := by
  have hdrop : (cs ++ []).dropWhile isBlank = [] := dropWhile_blank h (by simp)
  rw [List.append_nil] at hdrop
  rw [trimChars, hdrop]
  rfl

end Spintax.Text
