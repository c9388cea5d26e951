import Spintax.Proofs.Json.Writing

namespace Spintax.Entries

variable {α β : Type} [DecidableEq α]

theorem set_of_notMem {k : α} {es : List (α × β)} (h : k ∉ es.map Prod.fst) (v : β) :
    set k v es = es ++ [(k, v)] := by
  induction es with
  | nil => rfl
  | cons e es ih =>
    rw [List.map_cons, List.mem_cons, not_or] at h
    rw [set, if_neg (Ne.symm h.1), ih h.2]
    rfl

end Spintax.Entries

namespace Spintax.Json

/-- What is written for `v` is read as `w`, which has no more than `depth` brackets inside each
other. -/
def Value.Returns (depth : Nat) (v w : Value) : Prop :=
  ∃ ts, v.Writes ts ∧ (Reader.any depth).Reads ts w ∧ Reader.BeginsItem ts

namespace Reader

theorem any_scalar (depth : Nat) {t : Token} (hlist : t ≠ .openList) (hobject : t ≠ .openObject)
    (ts : List Token) : any depth (t :: ts) = scalar (t :: ts) := by
  cases depth with
  | zero => rfl
  | succ depth =>
    cases t with
    | openList => exact absurd rfl hlist
    | openObject => exact absurd rfl hobject
    | _ => rfl

theorem reads_membersOf {read : Reader Value} {ms : List (String × Value)}
    {mts : List (String × List Token)}
    (h : List.Forall₂ (fun mt m => mt.1 = m.1 ∧ read.Reads mt.2 m.2) mts ms)
    (hnames : (ms.map Prod.fst).Nodup) : (membersOf read).Reads (objectTokens mts) ms := by
  have hfollows : ∀ known : List (String × Value), ((known ++ ms).map Prod.fst).Nodup →
      Follows (fun ms k => .ok (read.map fun v => Entries.set k v ms)) known mts (known ++ ms) := by
    clear hnames
    induction h with
    | nil =>
      intro known _
      rw [List.append_nil]
      exact .nil known
    | @cons mt m mts ms hm _ ih =>
      intro known hnames
      obtain ⟨k, ts⟩ := mt
      obtain ⟨_, v⟩ := m
      obtain ⟨rfl, hv⟩ := hm
      have hsplit : known ++ (k, v) :: ms = (known ++ [(k, v)]) ++ ms := by simp
      have hnew : k ∉ known.map Prod.fst := by
        rw [List.map_append, List.nodup_append] at hnames
        exact fun hk => hnames.2.2 k hk k (by simp) rfl
      have hset : Entries.set k v known = known ++ [(k, v)] := Entries.set_of_notMem hnew v
      rw [hsplit] at hnames ⊢
      rw [← hset] at hnames ⊢
      exact .cons rfl (hv.map _) (ih _ hnames)
  exact reads_object _ (hfollows [] hnames)

end Reader

variable {depth : Nat}

theorem returns_text (depth : Nat) (s : String) : (Value.text s).Returns depth (.text s) := by
  refine ⟨[.text s], writes_text s, fun rest => ?_, _, _, rfl, by simp, by simp⟩
  rw [Reader.run, List.singleton_append, Reader.any_scalar depth (by simp) (by simp)]
  rfl

theorem returns_natural (depth : Nat) {n : Nat} (hn : n < UInt64.size) :
    (Value.ofNat n).Returns depth (.ofNat n) := by
  refine ⟨[.number (some (.integer n))], writes_natural hn, fun rest => ?_, _, _, rfl, by simp,
    by simp⟩
  rw [Reader.run, List.singleton_append, Reader.any_scalar depth (by simp) (by simp)]
  rfl

theorem returns_list {vs ws : List Value} (h : List.Forall₂ (Value.Returns depth) vs ws) :
    (Value.list vs).Returns (depth + 1) (.list ws) := by
  obtain ⟨vts, hwrites, hreads⟩ : ∃ vts, List.Forall₂ Value.Writes vs vts ∧
      List.Forall₂ (fun ts w => (Reader.any depth).Reads ts w ∧ Reader.BeginsItem ts) vts ws := by
    induction h with
    | nil => exact ⟨[], .nil, .nil⟩
    | cons hv _ ih =>
      obtain ⟨ts, hts, hw⟩ := hv
      obtain ⟨vts, hvts, hws⟩ := ih
      exact ⟨ts :: vts, .cons hts hvts, .cons hw hws⟩
  exact ⟨listTokens vts, writes_list hwrites, (Reader.reads_list hreads).map Value.list, _, _, rfl,
    by simp, by simp⟩

theorem exists_memberTokens {P : Value → List Token → Prop} {read : Reader Value}
    {ms ms' : List (String × Value)}
    (h : List.Forall₂ (fun m m' => m.1 = m'.1 ∧ ∃ ts, P m.2 ts ∧ read.Reads ts m'.2) ms ms') :
    ∃ mts : List (String × List Token),
      List.Forall₂ (fun m mt => m.1 = mt.1 ∧ P m.2 mt.2) ms mts ∧
      List.Forall₂ (fun mt m => mt.1 = m.1 ∧ read.Reads mt.2 m.2) mts ms' := by
  induction h with
  | nil => exact ⟨[], .nil, .nil⟩
  | @cons m m' ms ms' hm _ ih =>
    obtain ⟨hname, ts, hts, hw⟩ := hm
    obtain ⟨mts, hmts, hms⟩ := ih
    exact ⟨(m.1, ts) :: mts, .cons ⟨rfl, hts⟩ hmts, .cons ⟨hname, hw⟩ hms⟩

theorem returns_object {ms ms' : List (String × Value)}
    (h : List.Forall₂ (fun m m' => m.1 = m'.1 ∧ m.2.Returns depth m'.2) ms ms')
    (hnames : (ms'.map Prod.fst).Nodup) : (Value.object ms).Returns (depth + 1) (.object ms') := by
  obtain ⟨mts, hwrites, hreads⟩ := exists_memberTokens (P := Value.Writes)
    (h.imp fun _ _ ⟨hname, ts, hts, hw, _⟩ => ⟨hname, ts, hts, hw⟩)
  exact ⟨objectTokens mts, writes_object hwrites,
    (Reader.reads_membersOf hreads hnames).map Value.object, _, _, rfl, by simp, by simp⟩

theorem Value.Returns.decode {v w : Value} (h : v.Returns depth w) :
    (Reader.any depth).decode v.compact = .ok w := by
  obtain ⟨ts, hwrites, hreads, -⟩ := h
  have hrun := hreads []
  rw [List.append_nil] at hrun
  exact Reader.decode_of_tokens (tokens_of_spells hwrites.spells) hrun

end Spintax.Json
