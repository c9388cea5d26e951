import Mathlib
import Spintax.Proofs.Selection.Refusals
import Spintax.Proofs.Selection.Words

namespace Spintax.Draw

variable {bound word i : UInt64} {s : Supply} {weights : List UInt32}

theorem two_mul_mod_lt {m n : Nat} (hm : 0 < m) (hn : m < n) : 2 * (n % m) < n := by
  have hlt := Nat.mod_lt n hm
  have hdiv := Nat.div_add_mod n m
  have hone : 1 ≤ n / m := Nat.div_pos hn.le hm
  have hle : m ≤ m * (n / m) := Nat.le_mul_of_pos_right m hone
  omega

theorem ncard_refused (hb : bound ≠ 0) :
    {word | ¬ accepts bound word}.ncard = UInt64.size % bound.toNat := by
  have hle := Nat.mul_div_le UInt64.size bound.toNat
  have hdiv := Nat.div_add_mod UInt64.size bound.toNat
  have hcount := ncard_words (Nat.le_refl UInt64.size)
    fun n => bound.toNat * (UInt64.size / bound.toNat) ≤ n ∧ n < UInt64.size
  rw [count_interval (Nat.le_refl _)] at hcount
  have hset : {word | ¬ accepts bound word} =
      {word | word.toNat < UInt64.size ∧
        bound.toNat * (UInt64.size / bound.toNat) ≤ word.toNat ∧ word.toNat < UInt64.size} := by
    ext word
    have hword := word.toNat_lt_size
    simp only [Set.mem_ofPred_eq, accepts_iff hb, Nat.not_lt]
    omega
  rw [hset, hcount]
  omega

theorem accepts_iff_lt (hb : bound ≠ 0) (word : UInt64) :
    accepts bound word ↔ word.toNat < UInt64.size - UInt64.size % bound.toNat := by
  have hdiv := Nat.div_add_mod UInt64.size bound.toNat
  rw [accepts_iff hb]
  omega

theorem toNat_limit (hb : bound ≠ 0) (hr : remainder bound ≠ 0) :
    (0 - remainder bound).toNat = UInt64.size - UInt64.size % bound.toNat := by
  have hlt := (remainder bound).toNat_lt_size
  have hpos := toNat_pos hr
  rw [toNat_remainder hb] at hlt hpos
  rw [UInt64.toNat_sub, toNat_remainder hb]
  simp only [UInt64.size] at hlt hpos ⊢
  simp only [UInt64.toNat_zero, Nat.add_zero]
  exact Nat.mod_eq_of_lt (by omega)

theorem ncard_takes_uniform (hb : bound ≠ 0) (hi : i < bound) :
    {word | accepts bound word ∧ Takes (uniform bound) [word] i}.ncard =
      UInt64.size / bound.toNat := by
  have hhigh : i.toNat + 1 ≤ bound.toNat := UInt64.lt_iff_toNat_lt.mp hi
  have hcount := ncard_accepts hb i.toNat hhigh
  have hset : {word | accepts bound word ∧ Takes (uniform bound) [word] i} =
      {word | accepts bound word ∧ i.toNat ≤ (word % bound).toNat ∧
        (word % bound).toNat < i.toNat + 1} := by
    ext word
    have hone : word % bound = i ↔
        i.toNat ≤ (word % bound).toNat ∧ (word % bound).toNat < i.toNat + 1 := by
      rw [← UInt64.toNat_inj]
      omega
    simp only [Set.mem_ofPred_eq, takes_uniform_iff hb, hone, and_self_left]
  rw [hset, hcount, Nat.add_sub_cancel_left, Nat.one_mul]

/-- For each bound, the refused words are the last ones and fewer than half, and of the others
each result has the same number. -/
theorem uniform_fair (hb : bound ≠ 0) :
    (0xFFFFFFFFFFFFFFFF % bound + 1).toNat = (0xFFFFFFFFFFFFFFFF % bound).toNat + 1 ∧
    (remainder bound).toNat = 2 ^ 64 % bound.toNat ∧
    (remainder bound ≠ 0 → (0 - remainder bound).toNat = 2 ^ 64 - 2 ^ 64 % bound.toNat) ∧
    (∀ word, accepts bound word ↔ word.toNat < 2 ^ 64 - 2 ^ 64 % bound.toNat) ∧
    (bound.toNat ∣ 2 ^ 64 → ∀ word, accepts bound word) ∧
    (∀ i < bound, {word | accepts bound word ∧ Takes (uniform bound) [word] i}.ncard =
      2 ^ 64 / bound.toNat) ∧
    2 * {word | ¬ accepts bound word}.ncard < 2 ^ 64 ∧
    ∀ s, (acceptedAt bound s).Nonempty → ∃ i, IsLeast (acceptedAt bound s) i ∧
      uniform bound s = .ok (s.word i % bound, { s with used := i + 1 }) := by
  refine ⟨toNat_remainder_sum hb, toNat_remainder hb, toNat_limit hb, accepts_iff_lt hb, ?_,
    fun i hi => ncard_takes_uniform hb hi, ?_, ?_⟩
  · intro hdvd word
    have hzero : UInt64.size % bound.toNat = 0 := Nat.mod_eq_zero_of_dvd hdvd
    rw [accepts_iff_lt hb, hzero]
    exact word.toNat_lt_size
  · rw [ncard_refused hb]
    exact two_mul_mod_lt (toNat_pos hb) bound.toNat_lt_size
  · intro s hs
    obtain hfirst | ⟨hnone, -⟩ := uniform_cases hb s
    · exact hfirst
    · exact absurd hnone hs.ne_empty

theorem uniform_fair_largest :
    let bound : UInt64 := 0xFFFFFFFFFFFFFFFF
    let s : Supply := .ofArray #[0xFFFFFFFFFFFFFFFF, 7]
    bound ≠ 0 ∧ {word | accepts bound word ∧ Takes (uniform bound) [word] 7}.ncard = 1 ∧
      (acceptedAt bound s).Nonempty ∧ uniform bound s = .ok (7, { s with used := 2 }) := by
  intro bound s
  have hb : bound ≠ 0 := by decide
  have hmem : 1 ∈ acceptedAt bound s := ⟨by decide, by decide, by decide⟩
  obtain ⟨-, -, -, -, -, hcount, -, hfirst⟩ := uniform_fair hb
  obtain ⟨i, hi, hu⟩ := hfirst s ⟨1, hmem⟩
  have hne : i ≠ 0 := by
    rintro rfl
    exact absurd hi.1.2.2 (by decide)
  have hle : i ≤ 1 := hi.2 hmem
  obtain rfl : i = 1 := by omega
  have hone : 2 ^ 64 / bound.toNat = 1 := by decide
  exact ⟨hb, (hcount 7 (by decide)).trans hone, ⟨1, hmem⟩, hu⟩

/-- The search of `covering` with nothing to fall back on: it fails when no weight is left, and
when a weight is to be taken away from a smaller number. -/
def covering? (index : Nat) (target : UInt64) : List UInt32 → Option Nat
  | [] => none
  | w :: ws =>
    if target < w.toUInt64 then some index
    else if w.toUInt64 ≤ target then covering? (index + 1) (target - w.toUInt64) ws
    else none

theorem covering?_eq_some (index : Nat) {target : UInt64}
    (h : target.toNat < (weights.map UInt32.toNat).sum) :
    covering? index target weights = some (covering index target weights) := by
  induction weights generalizing index target with
  | nil => simp at h
  | cons w ws ih =>
    rw [covering?, covering]
    by_cases hw : target < w.toUInt64
    · rw [if_pos hw, if_pos hw]
    · have hle : w.toUInt64 ≤ target := UInt64.not_lt.mp hw
      have hsub := UInt64.toNat_sub_of_le _ _ hle
      rw [if_neg hw, if_neg hw, if_pos hle]
      apply ih
      rw [UInt64.le_iff_toNat_le] at hle
      simp only [UInt32.toNat_toUInt64, List.map_cons, List.sum_cons] at hsub hle h
      omega

theorem toNat_total_of_length (hlen : weights.length < 2 ^ 32) :
    (total weights).toNat = (weights.map UInt32.toNat).sum := by
  have hle := sum_le weights
  rw [toNat_total]
  exact Nat.mod_eq_of_lt (by simp only [UInt64.size]; omega)

theorem Covers.exists_pos {target i : Nat} (h : Covers weights target i) :
    ∃ hi : i < weights.length, 0 < weights[i] := by
  obtain ⟨hi, hlow, hhigh⟩ := h
  refine ⟨hi, ?_⟩
  have hlen : i < (weights.map UInt32.toNat).length := by rwa [List.length_map]
  rw [List.map_take, List.sum_take_succ _ _ hlen, List.getElem_map, ← List.map_take] at hhigh
  rw [UInt32.lt_iff_toNat_lt, UInt32.toNat_zero]
  omega

theorem ncard_takes_weighted {k : Nat} (hb : total weights ≠ 0)
    (ht : (total weights).toNat = (weights.map UInt32.toNat).sum) (hk : k < weights.length) :
    {word | accepts (total weights) word ∧ Takes (weighted weights) [word] k}.ncard =
      weights[k].toNat * (UInt64.size / (total weights).toNat) := by
  have hlen : k < (weights.map UInt32.toNat).length := by rwa [List.length_map]
  have hhigh : ((weights.map UInt32.toNat).take (k + 1)).sum ≤ (total weights).toNat := by
    rw [ht]
    exact (List.take_sublist _ _).sum_le_sum fun _ _ => Nat.zero_le _
  have hcount := ncard_accepts hb ((weights.map UInt32.toNat).take k).sum hhigh
  have hset : {word | accepts (total weights) word ∧ Takes (weighted weights) [word] k} =
      {word | accepts (total weights) word ∧
        ((weights.map UInt32.toNat).take k).sum ≤ (word % total weights).toNat ∧
        (word % total weights).toNat < ((weights.map UInt32.toNat).take (k + 1)).sum} := by
    ext word
    have hlt : (word % total weights).toNat < (weights.map UInt32.toNat).sum := by
      rw [← ht]
      exact UInt64.lt_iff_toNat_lt.mp (UInt64.mod_lt _ (UInt64.pos_iff_ne_zero.mpr hb))
    have htakes : Takes (weighted weights) [word] k ↔
        accepts (total weights) word ∧ covering 0 (word % total weights) weights = k :=
      takes_single_iff (f := fun target => covering 0 target weights) hb
    rw [Set.mem_ofPred_eq, htakes, covering_eq_iff hlt, and_self_left]
    rfl
  rw [hset, hcount, List.sum_take_succ _ _ hlen, Nat.add_sub_cancel_left, List.getElem_map]

theorem weighted_ones (hone : ∀ w ∈ weights, w = 1) (hlen : weights.length < 2 ^ 32) :
    weighted weights =
      fun s => (uniform (.ofNat weights.length) s).map fun (i, s) => (i.toNat, s) := by
  have hmap : weights.map UInt32.toNat = List.replicate weights.length 1 := by
    rw [List.map_eq_replicate_iff]
    intro w hw
    rw [hone w hw]
    rfl
  have hsum : (weights.map UInt32.toNat).sum = weights.length := by
    rw [hmap, List.sum_replicate, smul_eq_mul, Nat.mul_one]
  have htotal : total weights = .ofNat weights.length := by
    rw [← UInt64.toNat_inj, toNat_total_of_length hlen, hsum, UInt64.toNat_ofNat']
    exact (Nat.mod_eq_of_lt (by omega)).symm
  funext s
  rw [weighted, ← htotal]
  cases hu : uniform (total weights) s with
  | error e => rfl
  | ok drawn =>
    obtain ⟨i, s'⟩ := drawn
    have hlt := UInt64.lt_iff_toNat_lt.mp (uniform_eq_ok hu)
    rw [toNat_total_of_length hlen] at hlt
    have hcover : covering 0 i weights = i.toNat := by
      rw [covering_eq_iff hlt, hmap, List.take_replicate, List.take_replicate,
        List.sum_replicate, List.sum_replicate, smul_eq_mul, smul_eq_mul]
      omega
    simp only [Except.map, hcover]

/-- Each weight has its share of the accepted words, and one that is 0 has none. The search always
ends at a weight. -/
theorem weighted_fair (hlen : weights.length < 2 ^ 32)
    (hpos : 0 < (weights.map UInt32.toNat).sum) :
    (total weights).toNat = (weights.map UInt32.toNat).sum ∧
    (∀ s, (∃ i k, IsLeast (acceptedAt (total weights) s) i ∧
        weighted weights s = .ok (k, { s with used := i + 1 }) ∧
        ∃ hk : k < weights.length, 0 < weights[k]) ∨
      acceptedAt (total weights) s = ∅ ∧ weighted weights s = .error .ranDry) ∧
    (∀ word, covering? 0 (word % total weights) weights =
      some (covering 0 (word % total weights) weights)) ∧
    (∀ k (hk : k < weights.length),
      {word | accepts (total weights) word ∧ Takes (weighted weights) [word] k}.ncard =
        weights[k].toNat * (2 ^ 64 / (weights.map UInt32.toNat).sum)) ∧
    ((∀ w ∈ weights, w = 1) → ∀ s, weighted weights s =
      (uniform (.ofNat weights.length) s).map fun (i, s) => (i.toNat, s)) := by
  have ht := toNat_total_of_length hlen
  have hb : total weights ≠ 0 := by
    intro h
    rw [← ht, h] at hpos
    exact Nat.lt_irrefl 0 hpos
  refine ⟨ht, ?_, ?_, ?_, fun hone s => congrFun (weighted_ones hone hlen) s⟩
  · intro s
    obtain ⟨i, hi, hu⟩ | ⟨hnone, hu⟩ := uniform_cases hb s
    · exact .inl ⟨i, _, hi, by rw [weighted, hu]; rfl, (covers_of_uniform hu).exists_pos⟩
    · exact .inr ⟨hnone, by rw [weighted, hu]; rfl⟩
  · intro word
    apply covering?_eq_some
    rw [← ht]
    exact UInt64.lt_iff_toNat_lt.mp (UInt64.mod_lt _ (UInt64.pos_iff_ne_zero.mpr hb))
  · intro k hk
    rw [← ht]
    exact ncard_takes_weighted hb ht hk

theorem weighted_fair_zeros :
    let weights : List UInt32 := [0, 3, 0, 2]
    let ones : List UInt32 := [1, 1, 1]
    let s : Supply := .ofArray #[0xFFFFFFFFFFFFFFFF, 13]
    weights.length < 2 ^ 32 ∧ 0 < (weights.map UInt32.toNat).sum ∧
      (∃ k s', weighted weights s = .ok (k, s') ∧ ∃ hk : k < weights.length, 0 < weights[k]) ∧
      {word | accepts (total weights) word ∧ Takes (weighted weights) [word] 3}.ncard =
        2 * (2 ^ 64 / 5) ∧
      (∀ w ∈ ones, w = 1) ∧
      ∀ s, weighted ones s = (uniform 3 s).map fun (i, s) => (i.toNat, s) := by
  intro weights ones s
  have hlen : weights.length < 2 ^ 32 := by simp [weights]
  have hpos : 0 < (weights.map UInt32.toNat).sum := by decide
  have hone : ∀ w ∈ ones, w = 1 := by simp [ones]
  obtain ⟨-, hresult, -, hcount, -⟩ := weighted_fair hlen hpos
  obtain ⟨-, -, -, -, hones⟩ := @weighted_fair ones (by simp [ones]) (by decide)
  refine ⟨hlen, hpos, ?_, hcount 3 (by decide), hone, hones hone⟩
  obtain ⟨i, k, -, hk, hlt⟩ | ⟨hnone, -⟩ := hresult s
  · exact ⟨k, _, hk, hlt⟩
  · have hmem : 1 ∈ acceptedAt (total weights) s := ⟨by decide, by decide, by decide⟩
    rw [hnone] at hmem
    exact absurd hmem (Set.notMem_empty 1)

end Spintax.Draw
