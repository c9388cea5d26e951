import Spintax.Proofs.Config.Trees
import Spintax.Settings

namespace Spintax.Config

open Value

inductive Setting where
  | capacity
  | maxAge
  | concurrency
  | maxConcurrency
  | policy
  | exportFormat
  | logLevel
  | logFormat
deriving DecidableEq, Repr

namespace Setting

def all : List Setting :=
  [capacity, maxAge, concurrency, maxConcurrency, policy, exportFormat, logLevel, logFormat]

theorem mem_all (k : Setting) : k ∈ all := by
  cases k <;> decide

def part : Setting → String
  | capacity | maxAge => "cache"
  | concurrency | maxConcurrency => "bulk"
  | policy => "render"
  | exportFormat => "tracker"
  | logLevel | logFormat => "logging"

def name : Setting → String
  | capacity => "max_entries"
  | maxAge => "max_age_seconds"
  | concurrency => "concurrency"
  | maxConcurrency => "max_concurrency"
  | policy => "missing_variable"
  | exportFormat => "export_format"
  | logLevel => "level"
  | logFormat => "format"

def valuesUnder (k : Setting) : Key → Value → List Value
  | [], v => named k.name v.entries
  | [.name b], v => if foldKey b = k.name then [v] else []
  | _, _ => []

/-- The values that an entry gives to a setting. -/
def valuesIn (k : Setting) (e : String × Value) : List Value :=
  match Key.ofText e.1 with
  | .name a :: key => if foldKey a = k.part then k.valuesUnder key e.2 else []
  | _ => []

def values (k : Setting) (es : List (String × Value)) : List Value :=
  es.flatMap k.valuesIn

/-- The value that a layer gives to a setting, if it gives one. -/
def given? (k : Setting) (es : List (String × Value)) : Option Value :=
  (k.values es).getLast?

theorem given?_cons (k : Setting) (e : String × Value) (es : List (String × Value)) :
    k.given? (e :: es) = (k.given? es).or (k.valuesIn e).getLast? := by
  rw [given?, values, List.flatMap_cons, List.getLast?_append]
  rfl

theorem given?_append (k : Setting) (es fs : List (String × Value)) :
    k.given? (es ++ fs) = (k.given? fs).or (k.given? es) := by
  rw [given?, values, List.flatMap_append, List.getLast?_append]
  rfl

/-- Of several layers, the highest one of them first, the first that has a setting counts. -/
theorem given?_flatten (k : Setting) (layers : List (List (String × Value))) :
    k.given? layers.reverse.flatten = layers.findSome? k.given? := by
  induction layers with
  | nil => rfl
  | cons es layers ih =>
    rw [List.reverse_cons, List.flatten_append, List.flatten_singleton, given?_append, ih,
      List.findSome?_cons]
    cases k.given? es <;> rfl

/-- Whether what comes under the name of its section leaves the setting alone or gives it a value
that is no table. -/
def admits (k : Setting) : Key → Value → Bool
  | [], v => v.isTable && (named k.name v.entries).all fun w => !w.isTable
  | [.name b], v => foldKey b ≠ k.name || !v.isTable
  | .name b :: _, _ => foldKey b ≠ k.name
  | .index _ :: _, _ => false

end Setting

/-- Whether a name leads to the same place when it is written in small letters. Only the Kelvin
sign can make a difference. -/
def isSteady (name : String) : Bool :=
  Key.ofText (foldKey name) = [.name (foldKey name)]

/-- Whether an entry leaves all sections tables, and all settings without a table of their own. -/
def isPlain (e : String × Value) : Bool :=
  match Key.ofText e.1 with
  | .name a :: key =>
    isSteady a && Setting.all.all fun k => foldKey a ≠ k.part || k.admits key e.2
  | _ => false

/-- Whether all positions in a key are such that any list has an item there or room for one. -/
def Key.fits (key : Key) : Bool :=
  key.all fun
    | .name _ => true
    | .index i => 0 ≤ i && i < Value.maxItems

def Value.at? (root : Value) (k : Setting) : Option Value :=
  (root.entry? k.part).bind fun v => v.entry? k.name

/-- A tree as plain entries make it. -/
structure Value.Settled (root : Value) : Prop where
  tidy : root.Tidy
  steady : ∀ n ∈ root.entries.map Prod.fst, Key.ofText n = [.name n]
  parts : ∀ (k : Setting) (v : Value), root.entry? k.part = some v → v.isTable ∧ v.Tidy
  leaves : ∀ (k : Setting) (v : Value), root.at? k = some v → ¬ v.isTable

namespace Value

variable {root v w : Value} {old : Option Value} {k : Setting} {a : String} {key : Key}
  {e : String × Value} {es : List (String × Value)}

theorem settled_empty : Settled (table []) where
  tidy := .empty
  steady := by simp [entries]
  parts k v h := by cases h
  leaves k v h := by cases h

def under? (v : Value) (key : Key) (old : Option Value) : Option Value :=
  match key with
  | [] => some (v.onto old)
  | key => v.put? key (old.getD null)

theorem put?_name (v : Value) (a : String) (key : Key) (root : Value) :
    v.put? (.name a :: key) root =
      (v.under? key (root.entry? (foldKey a))).map (root.withEntry (foldKey a)) := by
  cases key with
  | nil => simp only [put?, entriesOnto, under?, Option.map_some]
  | cons b key => simp only [put?, under?]

theorem Settled.withEntry (h : root.Settled) (ha : isSteady a)
    (hw : ∀ k : Setting, foldKey a = k.part → w.isTable ∧ w.Tidy ∧
      ∀ leaf, w.entry? k.name = some leaf → ¬ leaf.isTable) :
    (root.withEntry (foldKey a) w).Settled ∧ ∀ k : Setting,
      (root.withEntry (foldKey a) w).at? k =
        if foldKey a = k.part then w.entry? k.name else root.at? k := by
  have hat : ∀ k : Setting, (root.withEntry (foldKey a) w).at? k =
      if foldKey a = k.part then w.entry? k.name else root.at? k := by
    intro k
    rw [at?, lookup_withEntry]
    by_cases hk : k.part = foldKey a
    · rw [if_pos hk, if_pos hk.symm]
      rfl
    · rw [if_neg hk, if_neg (Ne.symm hk)]
      rfl
  refine ⟨⟨h.tidy.withEntry a w, ?_, ?_, ?_⟩, hat⟩
  · intro n hn
    obtain rfl | hn := Entries.mem_names_set.mp hn
    · exact of_decide_eq_true ha
    · exact h.steady n hn
  · intro k v hv
    rw [lookup_withEntry] at hv
    split at hv
    · next hk =>
      cases hv
      exact ⟨(hw k hk.symm).1, (hw k hk.symm).2.1⟩
    · exact h.parts k v hv
  · intro k leaf hleaf
    rw [hat] at hleaf
    split at hleaf
    · next hk => exact (hw k hk).2.2 leaf hleaf
    · exact h.leaves k leaf hleaf

theorem under?_part (hold : ∀ v, old = some v → v.isTable ∧ v.Tidy) (hadmits : k.admits key v)
    (hw : v.under? key old = some w) : w.isTable ∧ w.Tidy ∧
      w.entry? k.name = (k.valuesUnder key v).getLast?.or (old.bind fun v => v.entry? k.name) := by
  cases key with
  | nil =>
    cases v with
    | table es =>
      simp only [under?, onto, Option.some.injEq] at hw
      have hall : ((named k.name es).all fun w => !w.isTable) = true := hadmits
      have hscalar : ∀ w ∈ named k.name es, ¬ w.isTable := by simpa using hall
      subst hw
      cases old with
      | none =>
        exact ⟨isTable_entriesOnto rfl es, Tidy.empty.entriesOnto es, lookup_entriesOnto hscalar _⟩
      | some v =>
        obtain ⟨htable, htidy⟩ := hold v rfl
        exact ⟨isTable_entriesOnto htable es, htidy.entriesOnto es, lookup_entriesOnto hscalar _⟩
    | null | bool | integer | real | text | list => cases hadmits
  | cons seg key =>
    cases seg with
    | index i => cases hadmits
    | name b =>
      rw [under?, put?_name] at hw
      · obtain ⟨w', hw', rfl⟩ := Option.map_eq_some_iff.mp hw
        have htidy : (old.getD null).Tidy := by
          cases old with
          | none => exact ⟨List.nodup_nil, by simp [entries]⟩
          | some v => exact (hold v rfl).2
        have hentry : Value.entry? (old.getD null) k.name = old.bind fun v => v.entry? k.name := by
          cases old <;> rfl
        refine ⟨rfl, htidy.withEntry b w', ?_⟩
        rw [lookup_withEntry, hentry]
        by_cases hb : k.name = foldKey b
        · cases key with
          | nil =>
            have hscalar : ¬ v.isTable := by simpa [Setting.admits, hb] using hadmits
            simp only [under?, onto_eq_of_not_isTable hscalar, Option.some.injEq] at hw'
            simp [Setting.valuesUnder, hb, hw']
          | cons c key => simp [Setting.admits, hb] at hadmits
        · have hnone : k.valuesUnder (.name b :: key) v = [] := by
            cases key with
            | nil => simp [Setting.valuesUnder, Ne.symm hb]
            | cons c key => rfl
          rw [if_neg hb, hnone]
          rfl
      · simp

theorem not_isTable_of_mem_valuesUnder (h : k.admits key v) (hw : w ∈ k.valuesUnder key v) :
    ¬ w.isTable := by
  match key with
  | [] =>
    have hall : ∀ w ∈ named k.name v.entries, ¬ w.isTable := by
      simpa using (Bool.and_eq_true_iff.mp h).2
    exact hall w hw
  | [.name b] =>
    rw [Setting.valuesUnder] at hw
    split at hw
    · next hb =>
      rw [List.mem_singleton.mp hw]
      simpa [Setting.admits, hb] using h
    · cases hw
  | .name _ :: _ :: _ => cases hw
  | .index _ :: _ => cases hw

theorem Settled.put? (h : root.Settled) (he : isPlain e)
    (hw : e.2.put? (Key.ofText e.1) root = some w) :
    w.Settled ∧ ∀ k : Setting, w.at? k = (k.valuesIn e).getLast?.or (root.at? k) := by
  rw [isPlain] at he
  split at he
  · next a key hkey =>
    rw [hkey, put?_name] at hw
    obtain ⟨new, hnew, rfl⟩ := Option.map_eq_some_iff.mp hw
    rw [Bool.and_eq_true, List.all_eq_true] at he
    obtain ⟨ha, hadmits⟩ := he
    -- other settings of the section may be there already, and are left as they are
    have hallowed : ∀ k : Setting, foldKey a = k.part → k.admits key e.2 := by
      intro k hk
      simpa [hk] using hadmits k k.mem_all
    have hvalues : ∀ k : Setting, k.valuesIn e =
        if foldKey a = k.part then k.valuesUnder key e.2 else [] := by
      intro k
      rw [Setting.valuesIn, hkey]
    have hpart : ∀ k : Setting, foldKey a = k.part → new.isTable ∧ new.Tidy ∧
        new.entry? k.name = (k.valuesUnder key e.2).getLast?.or (root.at? k) := by
      intro k hk
      have hold := h.parts k
      rw [at?, ← hk]
      rw [← hk] at hold
      exact under?_part hold (hallowed k hk) hnew
    have hleaf : ∀ k : Setting, foldKey a = k.part → ∀ leaf,
        new.entry? k.name = some leaf → ¬ leaf.isTable := by
      intro k hk leaf hleaf
      rw [(hpart k hk).2.2, Option.or_eq_some_iff] at hleaf
      obtain hleaf | ⟨-, hleaf⟩ := hleaf
      · have hmem := List.mem_of_getLast? hleaf
        exact not_isTable_of_mem_valuesUnder (hallowed k hk) hmem
      · exact h.leaves k leaf hleaf
    obtain ⟨hsettled, hat⟩ := h.withEntry ha
      fun k hk => ⟨(hpart k hk).1, (hpart k hk).2.1, hleaf k hk⟩
    refine ⟨hsettled, fun k => ?_⟩
    rw [hat, hvalues]
    split
    · next hk => exact (hpart k hk).2.2
    · rfl
  · cases he

theorem layer?_cons (e : String × Value) (es : List (String × Value)) (root : Value) :
    layer? (e :: es) root = (e.2.put? (Key.ofText e.1) root).bind (layer? es) :=
  List.foldlM_cons

/-- A layer changes the settings that it gives a value to, and no others. -/
theorem Settled.layer? (h : root.Settled) (hes : es.all isPlain) (hw : layer? es root = some w) :
    w.Settled ∧ ∀ k : Setting, w.at? k = (k.given? es).or (root.at? k) := by
  induction es generalizing root with
  | nil =>
    cases hw
    exact ⟨h, fun k => rfl⟩
  | cons e es ih =>
    rw [List.all_cons, Bool.and_eq_true] at hes
    rw [layer?_cons] at hw
    obtain ⟨root', hput, hlayer⟩ := Option.bind_eq_some_iff.mp hw
    obtain ⟨hroot', hat'⟩ := h.put? hes.1 hput
    obtain ⟨hsettled, hat⟩ := ih hroot' hes.2 hlayer
    refine ⟨hsettled, fun k => ?_⟩
    rw [hat, hat', Setting.given?_cons, Option.or_assoc]

theorem settled_of_layer? (hes : es.all isPlain) (hw : Value.layer? es (table []) = some w) :
    w.Settled ∧ ∀ k : Setting, w.at? k = k.given? es := by
  obtain ⟨hsettled, hat⟩ := settled_empty.layer? hes hw
  refine ⟨hsettled, fun k => ?_⟩
  have hempty : (table []).at? k = none := rfl
  rw [hat, hempty, Option.or_none]

theorem put?_isSome (h : key.fits) (v root : Value) : (v.put? key root).isSome := by
  induction key generalizing root with
  | nil => rfl
  | cons seg key ih =>
    rw [Key.fits, List.all_cons, Bool.and_eq_true] at h
    cases seg with
    | name a =>
      rw [put?_name, Option.isSome_map]
      cases key with
      | nil => rfl
      | cons b key => exact ih h.2 _
    | index i =>
      have hi : 0 ≤ i ∧ i < maxItems := by simpa using h.1
      have hposition : root.position? i = some i.toNat := by
        rw [position?, if_neg (not_lt.mpr hi.1)]
        simp [hi]
      rw [put?, hposition]
      simpa using ih h.2 _

theorem layer?_isSome (h : es.all fun e => (Key.ofText e.1).fits) (root : Value) :
    (Value.layer? es root).isSome := by
  induction es generalizing root with
  | nil => rfl
  | cons e es ih =>
    rw [List.all_cons, Bool.and_eq_true] at h
    rw [layer?_cons]
    obtain ⟨root', hput⟩ := Option.isSome_iff_exists.mp (put?_isSome h.1 e.2 root)
    rw [hput]
    exact ih h.2 root'

theorem Settled.name (h : root.Settled) (he : e ∈ root.entries) :
    Key.ofText e.1 = [.name e.1] ∧ foldKey e.1 = e.1 := by
  have hmem := List.mem_map_of_mem (f := Prod.fst) he
  exact ⟨h.steady _ hmem, h.tidy.folded _ hmem⟩

theorem Settled.admits (h : root.Settled) (he : e ∈ root.entries) (hk : e.1 = k.part) :
    k.admits [] e.2 := by
  have hentry : root.entry? k.part = some e.2 := by
    rw [← hk]
    exact (Entries.lookup_eq_some_iff_mem h.tidy.nodup).mpr he
  obtain ⟨htable, htidy⟩ := h.parts k e.2 hentry
  have hat : root.at? k = Value.entry? e.2 k.name := by
    rw [at?, hentry]
    rfl
  have hscalar : ∀ w ∈ named k.name e.2.entries, ¬ w.isTable := by
    intro w hw
    rw [htidy.named_eq, Option.mem_toList, ← hat] at hw
    exact h.leaves k w hw
  exact Bool.and_eq_true_iff.mpr ⟨htable, by simpa using hscalar⟩

theorem Settled.isPlain (h : root.Settled) (he : e ∈ root.entries) : isPlain e := by
  obtain ⟨hkey, hfold⟩ := h.name he
  have hsteady : isSteady e.1 := by
    rw [isSteady, hfold]
    exact decide_eq_true hkey
  have hadmits : ∀ k ∈ Setting.all, (foldKey e.1 ≠ k.part || k.admits [] e.2) := by
    intro k _
    rw [hfold]
    by_cases hk : e.1 = k.part
    · rw [h.admits he hk]
      exact Bool.or_true _
    · simp [hk]
  rw [Config.isPlain, hkey]
  exact Bool.and_eq_true_iff.mpr ⟨hsteady, List.all_eq_true.mpr hadmits⟩

theorem Settled.given?_entries (h : root.Settled) (k : Setting) :
    k.given? root.entries = root.at? k := by
  have hvalues : k.values root.entries =
      root.entries.flatMap fun e => if e.1 = k.part then named k.name e.2.entries else [] := by
    refine List.flatMap_congr fun e he => ?_
    obtain ⟨hkey, hfold⟩ := h.name he
    rw [Setting.valuesIn, hkey]
    simp only [hfold]
    rfl
  rw [Setting.given?, hvalues,
    Entries.flatMap_eq_of_nodup h.tidy.nodup fun v => named k.name v.entries, at?, entry?]
  cases hlookup : root.entries.lookup k.part with
  | none => rfl
  | some v =>
    have htidy := (h.parts k v hlookup).2
    rw [Option.elim_some, htidy.named_eq, Option.bind_some]
    cases v.entry? k.name <;> rfl

theorem Settled.entries (h : root.Settled) :
    root.entries.all Config.isPlain ∧ (root.entries.all fun e => (Key.ofText e.1).fits) ∧
      ∀ k : Setting, k.given? root.entries = root.at? k := by
  refine ⟨List.all_eq_true.mpr fun _ he => h.isPlain he, List.all_eq_true.mpr fun _ he => ?_,
    h.given?_entries⟩
  rw [(h.name he).1]
  rfl

end Value

end Spintax.Config
