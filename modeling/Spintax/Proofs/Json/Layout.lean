import Spintax.Proofs.Json.RoundTrip

namespace Spintax.Json

variable {ts ts' : List Token} {s w w' cs : List Char} {depth : Nat}

theorem Spells.spaces (hs : Spaces s) (h : Spells ts cs) : Spells ts (s ++ cs) := by
  have hspaces : ∀ {s' : List Char}, Spaces s' → Spaces (s ++ s') := fun hs' =>
    List.forall_mem_append.mpr ⟨hs, hs'⟩
  cases h with
  | nil hs' => exact .nil (hspaces hs')
  | cons hs' hw hend hcs =>
    rw [← List.append_assoc]
    exact .cons (hspaces hs') hw hend hcs

theorem Emits.spaces (hs : Spaces s) (h : Emits w ts) : Emits (s ++ w) ts := by
  intro us cs hend hcs
  rw [List.append_assoc]
  exact (h us cs hend hcs).spaces hs

theorem Emits.append_of_ends (hends : ∀ cs, EndsNumber (w' ++ cs)) (hw : Emits w ts)
    (h : Emits w' ts') : Emits (w ++ w') (ts ++ ts') := by
  intro us cs hend hcs
  rw [List.append_assoc, List.append_assoc]
  exact hw _ _ (hends cs) (h us cs hend hcs)

theorem spaces_newLine (depth : Nat) : Spaces (Value.newLine depth).toList := by
  simp [Value.newLine, Spaces]

theorem endsNumber_newLine (depth : Nat) (cs : List Char) :
    EndsNumber ((Value.newLine depth).toList ++ cs) := by
  simp [Value.newLine, EndsNumber]

namespace Value

def LaysOut (v : Value) (ts : List Token) : Prop :=
  ∀ depth, Emits (v.prettyAt depth).toList ts

/-- What is laid out for `v` is read as `w`, which has no more than `depth` brackets inside each
other. -/
def ReturnsLaidOut (depth : Nat) (v w : Value) : Prop :=
  ∃ ts, v.LaysOut ts ∧ (Reader.any depth).Reads ts w

end Value

theorem laysOut_text (s : String) : (Value.text s).LaysOut [.text s] := by
  intro depth
  rw [Value.prettyAt]
  exact emits_token (spells_quote s)

theorem laysOut_natural {n : Nat} (hn : n < UInt64.size) :
    (Value.ofNat n).LaysOut [.number (some (.integer n))] := by
  intro depth
  have hcompact : (Value.ofNat n).prettyAt depth = (Value.ofNat n).compact := by
    rw [Value.ofNat, Value.prettyAt, Value.compact]
  rw [hcompact]
  exact writes_natural hn

theorem emits_laidOut_member {k : String} {v : Value} (hv : v.LaysOut ts) (depth : Nat) :
    Emits (Value.newLine depth ++ quote k ++ ": " ++ v.prettyAt depth).toList
      (.text k :: .colon :: ts) := by
  have hspace : Spaces [' '] := by simp [Spaces]
  have hcolon := Emits.cons .colon (by simp) ((hv depth).spaces hspace)
  have hname := (Emits.cons (spells_quote k) (by simp) hcolon).spaces (spaces_newLine depth)
  simpa using hname

theorem emits_laidOut_members {ms : List (String × Value)} {mts : List (String × List Token)}
    (h : List.Forall₂ (fun m mt => m.1 = mt.1 ∧ m.2.LaysOut mt.2) ms mts) (depth : Nat) :
    let text := (Value.prettyMembers (depth + 1) ms ++ Value.newLine depth ++ "\x7d").toList
    Emits text (mts.flatMap (fun m => .comma :: .text m.1 :: .colon :: m.2) ++ [.closeObject]) ∧
      ∀ cs, EndsNumber (text ++ cs) := by
  induction h with
  | nil =>
    have hclose := (emits_token .closeObject).spaces (spaces_newLine depth)
    refine ⟨by simpa [Value.prettyMembers] using hclose, fun cs => ?_⟩
    have hends := endsNumber_newLine depth ('}' :: cs)
    simpa [Value.prettyMembers] using hends
  | @cons m mt ms mts hm _ ih =>
    obtain ⟨k, v⟩ := m
    obtain ⟨_, ts⟩ := mt
    obtain ⟨rfl, hv⟩ := hm
    obtain ⟨hrest, hends⟩ := ih
    have hmember : Emits _ (.text k :: .colon :: ts) :=
      emits_laidOut_member (k := k) hv (depth + 1)
    have hall := Emits.cons .comma (by simp) (Emits.append_of_ends hends hmember hrest)
    refine ⟨by simpa [Value.prettyMembers] using hall, fun cs => ?_⟩
    simp [Value.prettyMembers, EndsNumber]

theorem laysOut_object {ms : List (String × Value)} {mts : List (String × List Token)}
    (h : List.Forall₂ (fun m mt => m.1 = mt.1 ∧ m.2.LaysOut mt.2) ms mts) :
    (Value.object ms).LaysOut (objectTokens mts) := by
  intro depth
  cases h with
  | nil =>
    have hempty := Emits.cons .openObject (by simp) (emits_token .closeObject)
    simpa [Value.prettyAt, objectTokens, memberTokens] using hempty
  | @cons m mt ms mts hm h =>
    obtain ⟨k, v⟩ := m
    obtain ⟨_, ts⟩ := mt
    obtain ⟨rfl, hv⟩ := hm
    obtain ⟨hrest, hends⟩ := emits_laidOut_members h depth
    have hmember : Emits _ (.text k :: .colon :: ts) :=
      emits_laidOut_member (k := k) hv (depth + 1)
    have hall := Emits.cons .openObject (by simp) (Emits.append_of_ends hends hmember hrest)
    simpa [Value.prettyAt, objectTokens, memberTokens] using hall

theorem returnsLaidOut_text (depth : Nat) (s : String) :
    (Value.text s).ReturnsLaidOut depth (.text s) := by
  refine ⟨[.text s], laysOut_text s, fun rest => ?_⟩
  rw [Reader.run, List.singleton_append, Reader.any_scalar depth (by simp) (by simp)]
  rfl

theorem returnsLaidOut_natural (depth : Nat) {n : Nat} (hn : n < UInt64.size) :
    (Value.ofNat n).ReturnsLaidOut depth (.ofNat n) := by
  refine ⟨[.number (some (.integer n))], laysOut_natural hn, fun rest => ?_⟩
  rw [Reader.run, List.singleton_append, Reader.any_scalar depth (by simp) (by simp)]
  rfl

theorem returnsLaidOut_object {ms ms' : List (String × Value)}
    (h : List.Forall₂ (fun m m' => m.1 = m'.1 ∧ m.2.ReturnsLaidOut depth m'.2) ms ms')
    (hnames : (ms'.map Prod.fst).Nodup) :
    (Value.object ms).ReturnsLaidOut (depth + 1) (.object ms') := by
  obtain ⟨mts, hlays, hreads⟩ := exists_memberTokens (P := Value.LaysOut) h
  exact ⟨objectTokens mts, laysOut_object hlays,
    (Reader.reads_membersOf hreads hnames).map Value.object⟩

theorem Value.ReturnsLaidOut.decode {v w : Value} (h : v.ReturnsLaidOut depth w) :
    (Reader.any depth).decode v.pretty = .ok w := by
  obtain ⟨ts, hlays, hreads⟩ := h
  have hspells := hlays 0 [] [] (by simp [EndsNumber]) (.nil (by simp [Spaces]))
  have hrun := hreads []
  rw [List.append_nil] at hspells hrun
  rw [List.append_nil] at hspells
  exact Reader.decode_of_tokens (tokens_of_spells hspells) hrun

end Spintax.Json
