import Mathlib.Data.List.Forall2
import Spintax.Json.Reader
import Spintax.Proofs.Result

namespace Spintax.Json

def memberTokens : List (String × List Token) → List Token
  | [] => []
  | m :: ms =>
    .text m.1 :: .colon :: (m.2 ++ ms.flatMap fun m => .comma :: .text m.1 :: .colon :: m.2)

def objectTokens (ms : List (String × List Token)) : List Token :=
  .openObject :: (memberTokens ms ++ [.closeObject])

def itemTokens : List (List Token) → List Token
  | [] => []
  | v :: vs => v ++ vs.flatMap (.comma :: ·)

def listTokens (vs : List (List Token)) : List Token :=
  .openList :: (itemTokens vs ++ [.closeList])

inductive IsValue : List Token → Prop
  | null : IsValue [.null]
  | bool (b : Bool) : IsValue [.bool b]
  | number (n : Option Number) : IsValue [.number n]
  | text (s : String) : IsValue [.text s]
  | list {vs : List (List Token)} (h : ∀ v ∈ vs, IsValue v) : IsValue (listTokens vs)
  | object {ms : List (String × List Token)} (h : ∀ m ∈ ms, IsValue m.2) :
      IsValue (objectTokens ms)

def Token.IsString (t : Token) : Prop :=
  (∃ s, t = .text s) ∨ ∃ m, t = .brokenText m

def entryTokens : List (Token × List Token) → List Token
  | [] => []
  | m :: ms => m.1 :: .colon :: (m.2 ++ ms.flatMap fun m => .comma :: m.1 :: .colon :: m.2)

/-- The tokens of a value that nobody reads. -/
inductive CanSkip : List Token → Prop
  | null : CanSkip [.null]
  | bool (b : Bool) : CanSkip [.bool b]
  | number (n : Option Number) : CanSkip [.number n]
  | string {t : Token} (h : t.IsString) : CanSkip [t]
  | list {vs : List (List Token)} (h : ∀ v ∈ vs, CanSkip v) : CanSkip (listTokens vs)
  | object {ms : List (Token × List Token)} (hnames : ∀ m ∈ ms, m.1.IsString)
      (h : ∀ m ∈ ms, CanSkip m.2) : CanSkip (.openObject :: (entryTokens ms ++ [.closeObject]))

theorem entryTokens_text (ms : List (String × List Token)) :
    entryTokens (ms.map fun m => (.text m.1, m.2)) = memberTokens ms := by
  cases ms with
  | nil => rfl
  | cons m ms => rw [List.map_cons, entryTokens, memberTokens, List.flatMap_map]

theorem IsValue.canSkip {ts : List Token} (h : IsValue ts) : CanSkip ts := by
  induction h with
  | null => exact .null
  | bool b => exact .bool b
  | number n => exact .number n
  | text s => exact .string (.inl ⟨s, rfl⟩)
  | list _ ih => exact .list ih
  | @object ms _ ih =>
    rw [objectTokens, ← entryTokens_text]
    refine .object ?_ ?_ <;> intro m' hm' <;> obtain ⟨m, hm, rfl⟩ := List.mem_map.mp hm'
    · exact .inl ⟨m.1, rfl⟩
    · exact ih m hm

/-- There is one member with the name, and it has this value. -/
def Given (ms : List (String × List Token)) (name : String) (v : List Token) : Prop :=
  ms.filter (·.1 = name) = [(name, v)]

def Omitted (ms : List (String × List Token)) (name : String) : Prop :=
  ms.filter (·.1 = name) = []

def known (ms : List (String × List Token)) (name : String) : Bool :=
  ms.any (·.1 = name)

section members

variable {ms before after : List (String × List Token)} {name : String} {v w : List Token}

theorem known_concat (ms : List (String × List Token)) (k name : String) (v : List Token) :
    known (ms ++ [(k, v)]) name = (known ms name || decide (k = name)) := by
  simp [known]

theorem Omitted.known (h : Omitted ms name) : known ms name = false := by
  simpa [Json.known, Omitted, List.filter_eq_nil_iff] using h

theorem Given.known (h : Given ms name v) : known ms name = true := by
  have hm : (name, v) ∈ ms.filter (·.1 = name) := by
    rw [h]
    exact List.mem_singleton_self _
  rw [Json.known, List.any_eq_true]
  exact ⟨(name, v), List.mem_filter.mp hm⟩

theorem Given.of_split (h : Given ms name v) (hms : ms = before ++ (name, w) :: after) :
    w = v ∧ Json.known before name = false := by
  rw [Given, hms, List.filter_append, List.filter_cons_of_pos (by simp),
    List.append_eq_singleton_iff] at h
  obtain ⟨hbefore, h⟩ | ⟨-, h⟩ := h
  · obtain ⟨h, -⟩ := List.cons.inj h
    exact ⟨(Prod.mk.inj h).2, Omitted.known hbefore⟩
  · cases h

theorem Omitted.not_split (h : Omitted ms name) : ms ≠ before ++ (name, w) :: after := by
  rintro rfl
  simp [Omitted] at h

end members

def resume : List Bracket → List Token → Except Malformation (List Token)
  | [], rest => .ok rest
  | b :: bs, rest => skipFrom (b :: bs) .commaOrEnd rest

theorem skipFrom_name {t : Token} (ht : t.IsString) {await : Await}
    (ha : await = .name ∨ await = .nameOrEnd) (bs : List Bracket) (ts : List Token) :
    skipFrom bs await (t :: .colon :: ts) = skipFrom bs .value ts := by
  obtain ⟨s, rfl⟩ | ⟨m, rfl⟩ := ht <;> obtain rfl | rfl := ha <;> simp [skipFrom]

theorem skipFrom_members {ms : List (Token × List Token)} (hnames : ∀ m ∈ ms, m.1.IsString)
    (h : ∀ m ∈ ms, ∀ bs rest, skipFrom bs .value (m.2 ++ rest) = resume bs rest)
    (bs : List Bracket) (rest : List Token) :
    skipFrom (.object :: bs) .commaOrEnd
      (ms.flatMap (fun m => .comma :: m.1 :: .colon :: m.2) ++ .closeObject :: rest) =
        resume bs rest := by
  induction ms with
  | nil => cases bs <;> rfl
  | cons m ms ih =>
    obtain ⟨hname, hnames⟩ := List.forall_mem_cons.mp hnames
    obtain ⟨hm, h⟩ := List.forall_mem_cons.mp h
    simp only [List.flatMap_cons, List.cons_append, List.append_assoc]
    have hcomma (ts : List Token) : skipFrom (.object :: bs) .commaOrEnd (.comma :: ts) =
        skipFrom (.object :: bs) .name ts := by simp [skipFrom]
    rw [hcomma, skipFrom_name hname (.inl rfl), hm]
    exact ih hnames h

theorem skipFrom_items {vs : List (List Token)}
    (h : ∀ v ∈ vs, ∀ bs rest, skipFrom bs .value (v ++ rest) = resume bs rest)
    (bs : List Bracket) (rest : List Token) :
    skipFrom (.list :: bs) .commaOrEnd (vs.flatMap (.comma :: ·) ++ .closeList :: rest) =
      resume bs rest := by
  induction vs with
  | nil => cases bs <;> rfl
  | cons v vs ih =>
    obtain ⟨hv, h⟩ := List.forall_mem_cons.mp h
    simp only [List.flatMap_cons, List.cons_append, List.append_assoc, skipFrom]
    rw [hv]
    exact ih h

theorem CanSkip.skipFrom_eq {ts : List Token} (h : CanSkip ts) (await : Await)
    (ha : await = .value ∨ await = .valueOrEnd) (bs : List Bracket) (rest : List Token) :
    skipFrom bs await (ts ++ rest) = resume bs rest := by
  induction h generalizing await bs rest with
  | null | bool | number =>
    obtain rfl | rfl := ha <;> cases bs <;> rfl
  | string ht =>
    obtain ⟨s, rfl⟩ | ⟨m, rfl⟩ := ht <;> obtain rfl | rfl := ha <;> cases bs <;> rfl
  | @list vs _ ih =>
    have hvalue : ∀ v ∈ vs, ∀ bs rest, skipFrom bs .value (v ++ rest) = resume bs rest :=
      fun v hv => ih v hv .value (.inl rfl)
    have hitem : ∀ v ∈ vs, ∀ bs rest, skipFrom bs .valueOrEnd (v ++ rest) = resume bs rest :=
      fun v hv => ih v hv .valueOrEnd (.inr rfl)
    have hopen : skipFrom bs await (listTokens vs ++ rest) =
        skipFrom (.list :: bs) .valueOrEnd (itemTokens vs ++ .closeList :: rest) := by
      obtain rfl | rfl := ha <;>
        simp only [listTokens, List.cons_append, List.append_assoc, List.nil_append, skipFrom]
    rw [hopen]
    cases vs with
    | nil => cases bs <;> rfl
    | cons v vs =>
      rw [itemTokens, List.append_assoc, hitem v List.mem_cons_self]
      exact skipFrom_items (fun v hv => hvalue v (List.mem_cons_of_mem _ hv)) bs rest
  | @object ms hnames _ ih =>
    have hvalue : ∀ m ∈ ms, ∀ bs rest, skipFrom bs .value (m.2 ++ rest) = resume bs rest :=
      fun m hm => ih m hm .value (.inl rfl)
    have hopen : skipFrom bs await (.openObject :: (entryTokens ms ++ [.closeObject]) ++ rest) =
        skipFrom (.object :: bs) .nameOrEnd (entryTokens ms ++ .closeObject :: rest) := by
      obtain rfl | rfl := ha <;>
        simp only [List.cons_append, List.append_assoc, List.nil_append, skipFrom]
    rw [hopen]
    cases ms with
    | nil => cases bs <;> rfl
    | cons m ms =>
      obtain ⟨hname, hnames⟩ := List.forall_mem_cons.mp hnames
      simp only [entryTokens, List.cons_append, List.append_assoc]
      rw [skipFrom_name hname (.inr rfl), hvalue m List.mem_cons_self]
      exact skipFrom_members hnames (fun m hm => hvalue m (List.mem_cons_of_mem _ hm)) bs rest

namespace Reader

variable {α β σ : Type}

def run (read : Reader α) (ts : List Token) : Except ReadError (α × List Token) :=
  (read ts).map fun (a, r) => (a, r.1)

/-- From these tokens the reader gets `a`, whatever comes after them. -/
def Reads (read : Reader α) (ts : List Token) (a : α) : Prop :=
  ∀ rest, read.run (ts ++ rest) = .ok (a, rest)

theorem Reads.exists_rest {read : Reader α} {ts : List Token} {a : α} (h : read.Reads ts a)
    (rest : List Token) : ∃ r : Rest (ts ++ rest), read (ts ++ rest) = .ok (a, r) ∧ r.1 = rest := by
  obtain ⟨⟨a', r⟩, hr, he⟩ := Result.map_eq_ok.mp (h rest)
  simp only [Prod.mk.injEq] at he
  obtain ⟨rfl, he⟩ := he
  exact ⟨r, hr, he⟩

theorem Reads.map {read : Reader α} {ts : List Token} {a : α} (h : read.Reads ts a) (f : α → β) :
    (read.map f).Reads ts (f a) := by
  intro rest
  obtain ⟨r, hr, he⟩ := h.exists_rest rest
  rw [run, Reader.map, hr]
  simp only [Except.map, he]

theorem reads_text (s : String) : text.Reads [.text s] s :=
  fun _ => rfl

theorem reads_natural (n : Nat) : natural.Reads [.number (some (.integer n))] n :=
  fun _ => rfl

theorem reads_null (read : Reader α) : (optional read).Reads [.null] none :=
  fun _ => rfl

theorem reads_skip {ts : List Token} (h : CanSkip ts) : skip.Reads ts () := by
  intro rest
  have hskip : skipFrom [] .value (ts ++ rest) = .ok rest := h.skipFrom_eq .value (.inl rfl) [] rest
  rw [run, skip]
  split
  · next rs hrs =>
    rw [hskip] at hrs
    cases hrs
    rfl
  · next m hm =>
    rw [hskip] at hm
    cases hm

theorem optional_cons (read : Reader α) {t : Token} (ht : t ≠ .null) (ts : List Token) :
    optional read (t :: ts) = (read (t :: ts)).map fun (a, r) => (some a, r) := by
  cases t with
  | null => exact absurd rfl ht
  | _ => rfl

theorem reads_optional {read : Reader α} {t : Token} {ts : List Token} {a : α}
    (h : read.Reads (t :: ts) a) (ht : t ≠ .null) : (optional read).Reads (t :: ts) (some a) := by
  intro rest
  obtain ⟨r, hr, he⟩ : ∃ r : Rest (t :: (ts ++ rest)),
      read (t :: (ts ++ rest)) = .ok (a, r) ∧ r.1 = rest := h.exists_rest rest
  rw [List.cons_append, run, optional_cons read ht, hr]
  simp only [Except.map, he]

def BeginsItem (v : List Token) : Prop :=
  ∃ t ts, v = t :: ts ∧ t ≠ .comma ∧ t ≠ .closeList

theorem item?_first (read : Reader α) {v : List Token} (hv : BeginsItem v) (rest : List Token) :
    item? read true (v ++ rest) = (read (v ++ rest)).map some := by
  obtain ⟨t, ts, rfl, hcomma, hclose⟩ := hv
  cases t with
  | comma => exact absurd rfl hcomma
  | closeList => exact absurd rfl hclose
  | _ => rfl

theorem nextItem_append (read : Reader α) {v : List Token} (hv : BeginsItem v)
    (rest : List Token) : nextItem read (v ++ rest) = read (v ++ rest) := by
  obtain ⟨t, ts, rfl, -, hclose⟩ := hv
  cases t with
  | closeList => exact absurd rfl hclose
  | _ => rfl

theorem items_step {read : Reader α} {first : Bool} {ts : List Token} {a : α} {r : Rest ts}
    (h : item? read first ts = .ok (some (a, r))) : run (items read first) ts =
      (run (items read false) r.1).map fun (as, rest) => (a :: as, rest) := by
  rw [run, run, items]
  simp only [h]
  cases items read false r.1 <;> rfl

theorem items_append {read : Reader α} {vs : List (List Token)} {as : List α}
    (h : List.Forall₂ (fun v a => read.Reads v a ∧ BeginsItem v) vs as) (rest : List Token) :
    run (items read false) (vs.flatMap (.comma :: ·) ++ .closeList :: rest) = .ok (as, rest) := by
  induction h with
  | nil =>
    rw [List.flatMap_nil, List.nil_append, run, items]
    rfl
  | @cons v a vs as hv _ ih =>
    obtain ⟨hread, hbegins⟩ := hv
    simp only [List.flatMap_cons, List.append_assoc, List.cons_append]
    obtain ⟨r, hr, he⟩ := hread.exists_rest (vs.flatMap (.comma :: ·) ++ .closeList :: rest)
    have hitem : item? read false (.comma :: (v ++ (vs.flatMap (.comma :: ·) ++
        .closeList :: rest))) = .ok (some (a, (Rest.one _ _).trans r)) := by
      simp only [item?, Bool.false_eq_true, if_false, nextItem_append read hbegins, hr]
      rfl
    have hrest : ((Rest.one Token.comma _).trans r).1 = r.1 := rfl
    rw [items_step hitem, hrest, he, ih]
    rfl

theorem run_list (read : Reader α) (ts : List Token) :
    run (list read) (.openList :: ts) = run (items read true) ts := by
  rw [run, run, list]
  cases items read true ts <;> rfl

theorem reads_list {read : Reader α} {vs : List (List Token)} {as : List α}
    (h : List.Forall₂ (fun v a => read.Reads v a ∧ BeginsItem v) vs as) :
    (list read).Reads (listTokens vs) as := by
  intro rest
  have htokens : listTokens vs ++ rest = .openList :: (itemTokens vs ++ .closeList :: rest) := by
    simp [listTokens]
  rw [htokens, run_list]
  cases h with
  | nil =>
    rw [itemTokens, List.nil_append, run, items]
    rfl
  | @cons v a vs as hv h =>
    obtain ⟨hread, hbegins⟩ := hv
    rw [itemTokens, List.append_assoc]
    obtain ⟨r, hr, he⟩ := hread.exists_rest (vs.flatMap (.comma :: ·) ++ .closeList :: rest)
    have hitem := item?_first read hbegins (vs.flatMap (.comma :: ·) ++ .closeList :: rest)
    rw [hr] at hitem
    rw [items_step hitem, he, items_append h]
    rfl

/-- What is known after each member of an object, up to the last one. -/
inductive Follows (member : σ → String → Except ReadError (Reader σ)) :
    σ → List (String × List Token) → σ → Prop
  | nil (s : σ) : Follows member s [] s
  | cons {s s₁ s₂ : σ} {k : String} {v : List Token} {ms : List (String × List Token)}
      {read : Reader σ} (hm : member s k = .ok read) (hr : read.Reads v s₁)
      (h : Follows member s₁ ms s₂) : Follows member s ((k, v) :: ms) s₂

variable {member : σ → String → Except ReadError (Reader σ)} {s s' : σ}
  {ms : List (String × List Token)}

theorem members_step {first : Bool} {ts : List Token} {k : String} {v : List Token} {s₁ : σ}
    {read : Reader σ} {r : Rest ts} {rest : List Token} (hname : name? first ts = .ok (some (k, r)))
    (hr : r.1 = .colon :: (v ++ rest)) (hm : member s k = .ok read) (hread : read.Reads v s₁) :
    run (members member s first) ts = run (members member s₁ false) rest := by
  obtain ⟨r, hlt⟩ := r
  cases hr
  obtain ⟨⟨rs, hrs⟩, hr', he⟩ := hread.exists_rest rest
  change rs = rest at he
  subst he
  rw [run, run, members, hname]
  simp only [hm, value, hr', Except.map, Rest.trans]
  cases members member s₁ false rs <;> rfl

theorem members_append (h : Follows member s ms s') (rest : List Token) :
    run (members member s false)
      (ms.flatMap (fun m => .comma :: .text m.1 :: .colon :: m.2) ++ .closeObject :: rest) =
        .ok (s', rest) := by
  induction h with
  | nil s =>
    rw [List.flatMap_nil, List.nil_append, run, members]
    rfl
  | @cons s s₁ s₂ k v ms read hm hr _ ih =>
    simp only [List.flatMap_cons, List.append_assoc, List.cons_append]
    rw [members_step (k := k) (v := v) rfl rfl hm hr]
    exact ih

theorem run_object (wanted : String) (ts : List Token) :
    run (object wanted member s) (.openObject :: ts) = run (members member s true) ts := by
  rw [run, run, object]
  cases members member s true ts <;> rfl

theorem reads_object (wanted : String) (h : Follows member s ms s') :
    (object wanted member s).Reads (objectTokens ms) s' := by
  intro rest
  have hmembers : run (members member s true) (memberTokens ms ++ .closeObject :: rest) =
      .ok (s', rest) := by
    cases h with
    | nil s =>
      rw [memberTokens, List.nil_append, run, members]
      rfl
    | @cons s s₁ s₂ k v ms read hm hr h =>
      simp only [memberTokens, List.append_assoc, List.cons_append]
      rw [members_step (k := k) (v := v) rfl rfl hm hr]
      exact members_append h rest
  have htokens : objectTokens ms ++ rest =
      .openObject :: (memberTokens ms ++ .closeObject :: rest) := by
    simp [objectTokens]
  rw [htokens, run_object, hmembers]

theorem reads_record {a : α} {wanted : String} {field : σ → Nat → Option (Reader σ)}
    {ofObject ofList : σ → Except ReadError α} (h : Follows member s ms s')
    (ha : ofObject s' = .ok a) :
    (record wanted member field s ofObject ofList).Reads (objectTokens ms) a := by
  intro rest
  obtain ⟨r, hr, he⟩ := (reads_object wanted h).exists_rest rest
  have hrecord : record wanted member field s ofObject ofList (objectTokens ms ++ rest) =
      refine ofObject (object wanted member s) (objectTokens ms ++ rest) := rfl
  rw [run, hrecord, refine, hr]
  simp only [Except.bind, ha, Except.map, he]

inductive Places (field : σ → Nat → Option (Reader σ)) : σ → Nat → List (List Token) → σ → Prop
  | nil (s : σ) (n : Nat) : Places field s n [] s
  | cons {s s₁ s₂ : σ} {n : Nat} {v : List Token} {vs : List (List Token)} {read : Reader σ}
      (hf : field s n = some read) (hr : read.Reads v s₁) (hb : BeginsItem v)
      (h : Places field s₁ (n + 1) vs s₂) : Places field s n (v :: vs) s₂

theorem positions_closeList (field : σ → Nat → Option (Reader σ)) (s : σ) (n : Nat)
    (rest : List Token) : run (positions field s n) (.closeList :: rest) = .ok (s, rest) := by
  rw [run, positions]
  cases field s n <;> rfl

theorem positions_step {field : σ → Nat → Option (Reader σ)} {n : Nat} {ts : List Token} {s₁ : σ}
    {read : Reader σ} {r : Rest ts} (hf : field s n = some read)
    (hitem : item? read (n = 0) ts = .ok (some (s₁, r))) :
    run (positions field s n) ts = run (positions field s₁ (n + 1)) r.1 := by
  rw [run, run, positions, hf]
  simp only [hitem]
  cases positions field s₁ (n + 1) r.1 <;> rfl

theorem positions_append {field : σ → Nat → Option (Reader σ)} {n : Nat} {vs : List (List Token)}
    (h : Places field s n vs s') (hn : n ≠ 0) (rest : List Token) :
    run (positions field s n) (vs.flatMap (.comma :: ·) ++ .closeList :: rest) =
      .ok (s', rest) := by
  induction h with
  | nil s n => exact positions_closeList field s n rest
  | @cons s s₁ s₂ n v vs read hf hr hb _ ih =>
    simp only [List.flatMap_cons, List.append_assoc, List.cons_append]
    obtain ⟨r, hr, he⟩ := hr.exists_rest (vs.flatMap (.comma :: ·) ++ .closeList :: rest)
    have hitem : item? read (n = 0) (.comma :: (v ++ (vs.flatMap (.comma :: ·) ++
        .closeList :: rest))) = .ok (some (s₁, (Rest.one _ _).trans r)) := by
      simp only [item?, hn, decide_false, Bool.false_eq_true, if_false, nextItem_append read hb, hr]
      rfl
    have hrest : ((Rest.one Token.comma _).trans r).1 = r.1 := rfl
    rw [positions_step hf hitem, hrest, he, ih (Nat.succ_ne_zero n)]

theorem reads_record_list {a : α} {wanted : String} {field : σ → Nat → Option (Reader σ)}
    {ofObject ofList : σ → Except ReadError α} {vs : List (List Token)}
    (h : Places field s 0 vs s') (ha : ofList s' = .ok a) :
    (record wanted member field s ofObject ofList).Reads (listTokens vs) a := by
  intro rest
  have htokens : listTokens vs ++ rest = .openList :: (itemTokens vs ++ .closeList :: rest) := by
    simp [listTokens]
  have hpositions : run (positions field s 0) (itemTokens vs ++ .closeList :: rest) =
      .ok (s', rest) := by
    cases h with
    | nil => exact positions_closeList field s 0 rest
    | @cons _ s₁ _ _ v vs read hf hr hb h =>
      rw [itemTokens, List.append_assoc]
      obtain ⟨r, hr, he⟩ := hr.exists_rest (vs.flatMap (.comma :: ·) ++ .closeList :: rest)
      have hitem := item?_first read hb (vs.flatMap (.comma :: ·) ++ .closeList :: rest)
      rw [hr] at hitem
      rw [positions_step hf hitem, he, positions_append h Nat.one_ne_zero]
  obtain ⟨⟨s'', r⟩, hr, he⟩ := Result.map_eq_ok.mp hpositions
  simp only [Prod.mk.injEq] at he
  obtain ⟨rfl, he⟩ := he
  rw [htokens, run, record, hr]
  simp only [Except.bind, ha, Except.map]
  exact congrArg (fun ts => Except.ok (a, ts)) he

/-- An object can be read if that is so for each of its members. What is known depends on the names
of the members so far. -/
theorem follows_of_known (draft : (String → Bool) → σ)
    (h : ∀ before k v after, ms = before ++ (k, v) :: after → ∃ read,
      member (draft (known before)) k = .ok read ∧
        read.Reads v (draft (known (before ++ [(k, v)])))) :
    Follows member (draft (known [])) ms (draft (known ms)) := by
  have hrest : ∀ after before, ms = before ++ after →
      Follows member (draft (known before)) after (draft (known ms)) := by
    intro after
    induction after with
    | nil =>
      intro before hms
      rw [hms, List.append_nil]
      exact .nil _
    | cons m after ih =>
      intro before hms
      obtain ⟨read, hm, hr⟩ := h before m.1 m.2 after hms
      exact .cons hm hr (ih (before ++ [m]) (by simpa using hms))
  exact hrest ms [] rfl

theorem decode_of_tokens {read : Reader α} {a : α} {text : String} {ts : List Token}
    (ht : tokens text.toList = ts) (h : read.run ts = .ok (a, [])) : read.decode text = .ok a := by
  subst ht
  obtain ⟨⟨a', r, hlt⟩, hr, he⟩ := Result.map_eq_ok.mp h
  cases he
  rw [decode, hr]

theorem decode_error_of_tokens {read : Reader α} {e : ReadError} {text : String} {ts : List Token}
    (ht : tokens text.toList = ts) (h : read.run ts = .error e) : read.decode text = .error e := by
  subst ht
  rw [run] at h
  rw [decode]
  cases hr : read (tokens text.toList) <;> rw [hr] at h <;> cases h
  rfl

end Reader

end Spintax.Json
