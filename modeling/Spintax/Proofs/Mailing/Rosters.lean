import Spintax.Mailing.Roster
import Spintax.Proofs.Json.Writing
import Spintax.Proofs.Text.Lines

namespace Spintax

open Json

theorem Variables.get?_ofList (es : List (String × String)) (name : String) :
    (ofList es).get? name = es.reverse.lookup name := by
  have hfold : ∀ vs : Variables, (es.foldl (fun vs e => vs.insert e.1 e.2) vs).get? name =
      (es.reverse.lookup name).or (vs.get? name) := by
    induction es with
    | nil => simp
    | cons e es ih =>
      intro vs
      have hinsert : (vs.insert e.1 e.2).get? name =
          if name = e.1 then some e.2 else vs.get? name :=
        Entries.lookup_set e.1 name e.2 vs.entries
      rw [List.foldl_cons, ih, hinsert, List.reverse_cons, List.lookup_append, Option.or_assoc,
        Entries.lookup_cons]
      by_cases hname : name = e.1 <;> simp [hname]
  rw [ofList, hfold]
  simp [empty, get?]

namespace Recipient

/-- Nobody can tell the recipients apart by their names or values. -/
structure Alike (r r' : Recipient) : Prop where
  id : r.id = r'.id
  values : ∀ name, r.values.get? name = r'.values.get? name

def valueTokens (es : List (String × String)) : List Token :=
  objectTokens (es.map fun e => (e.1, [.text e.2]))

/-- The members of an object that writes the recipient, in any order. If there are no values, they
may be left out. Other members may have any value. -/
structure WrittenAs (r : Recipient) (ms : List (String × List Token)) : Prop where
  id : Given ms "id" [.text r.id]
  values : ∃ es, (Given ms "variables" (valueTokens es) ∨ Omitted ms "variables" ∧ es = []) ∧
    ∀ name, r.values.get? name = (Variables.ofList es).get? name
  others : ∀ m ∈ ms, m.1 ∉ ["id", "variables"] → IsValue m.2

/-- Of the values for a name, the last one is the recipient's. -/
def HasValues (r : Recipient) (es : List (String × String)) : Prop :=
  ∀ name, r.values.get? name = es.reverse.lookup name

structure HasMembers (r : Recipient) (ms : List (String × List Token)) : Prop where
  id : Given ms "id" [.text r.id]
  values : ∃ es, (Given ms "variables" (valueTokens es) ∨ Omitted ms "variables" ∧ es = []) ∧
    r.HasValues es
  others : ∀ m ∈ ms, m.1 ∉ ["id", "variables"] → CanSkip m.2

/-- The forms of a recipient: an object, or a list that ends with its name or with its values. -/
inductive HasForm (r : Recipient) : List Token → Prop
  | object {ms : List (String × List Token)} (h : r.HasMembers ms) : HasForm r (objectTokens ms)
  | values {es : List (String × String)} (h : r.HasValues es) :
      HasForm r (listTokens [[.text r.id], valueTokens es])
  | name (h : r.HasValues []) : HasForm r (listTokens [[.text r.id]])

theorem HasForm.beginsItem {r : Recipient} {ts : List Token} (h : r.HasForm ts) :
    Reader.BeginsItem ts := by
  cases h with
  | object | values | name => exact ⟨_, _, rfl, by simp, by simp⟩

theorem WrittenAs.hasMembers {r : Recipient} {ms : List (String × List Token)}
    (h : r.WrittenAs ms) : r.HasMembers ms := by
  obtain ⟨es, hes, hget⟩ := h.values
  refine ⟨h.id, ⟨es, hes, fun name => ?_⟩, fun m hm hname => (h.others m hm hname).canSkip⟩
  rw [hget name, Variables.get?_ofList]

theorem HasValues.alike {r : Recipient} {es : List (String × String)} (h : r.HasValues es) :
    r.Alike ⟨r.id, .ofList es⟩ := by
  refine ⟨rfl, fun name => ?_⟩
  rw [h name, Variables.get?_ofList]

theorem reads_variables (es : List (String × String)) :
    variablesReader.Reads (valueTokens es) (.ofList es) := by
  refine Reader.reads_object _ ?_
  rw [Variables.ofList]
  generalize Variables.empty = vs
  induction es generalizing vs with
  | nil => exact .nil vs
  | cons e es ih => exact .cons rfl ((Reader.reads_text e.2).map _) (ih _)

theorem reads_id (d : Draft) (id : String) :
    (idReader d).Reads [.text id] { d with id := some id } :=
  (Reader.reads_text id).map _

theorem reads_values (d : Draft) (es : List (String × String)) :
    (valuesReader d).Reads (valueTokens es) { d with values := some (.ofList es) } :=
  (reads_variables es).map _

def draft (id : String) (values : Variables) (known : String → Bool) : Draft where
  id := if known "id" then some id else none
  values := if known "variables" then some values else none

theorem HasMembers.reads {r : Recipient} {ms : List (String × List Token)} (h : r.HasMembers ms) :
    ∃ r', reader.Reads (objectTokens ms) r' ∧ r.Alike r' := by
  obtain ⟨es, hes, hget⟩ := h.values
  have hfollows : Reader.Follows member ⟨none, none⟩ ms
      (draft r.id (.ofList es) (known ms)) := by
    refine Reader.follows_of_known (draft r.id (.ofList es)) ?_
    intro before k v after hms
    generalize hd : draft r.id (.ofList es) (known before) = d
    by_cases hid : k = "id"
    · subst hid
      obtain ⟨rfl, hnew⟩ := h.id.of_split hms
      refine ⟨idReader d, by simp [member, ← hd, draft, hnew], ?_⟩
      have hnext : draft r.id (.ofList es) (known (before ++ [("id", [.text r.id])])) =
          { d with id := some r.id } := by simp [← hd, draft, known_concat]
      rw [hnext]
      exact reads_id d r.id
    by_cases hvalues : k = "variables"
    · subst hvalues
      obtain hgiven | ⟨homitted, -⟩ := hes
      · obtain ⟨rfl, hnew⟩ := hgiven.of_split hms
        refine ⟨valuesReader d, by simp [member, ← hd, draft, hnew], ?_⟩
        have hnext : draft r.id (.ofList es) (known (before ++ [("variables", valueTokens es)])) =
            { d with values := some (.ofList es) } := by simp [← hd, draft, known_concat]
        rw [hnext]
        exact reads_values d es
      · exact absurd hms homitted.not_split
    have hv : CanSkip v := h.others (k, v) (by simp [hms]) (by simp [hid, hvalues])
    refine ⟨Reader.skip.map fun _ => d, by simp [member, hid, hvalues], ?_⟩
    have hnext : draft r.id (.ofList es) (known (before ++ [(k, v)])) = d := by
      simp [← hd, draft, known_concat, hid, hvalues]
    rw [hnext]
    exact (Reader.reads_skip hv).map fun _ => d
  have hid : (draft r.id (.ofList es) (known ms)).id = some r.id := by
    simp [draft, h.id.known]
  have hvalues : (draft r.id (.ofList es) (known ms)).values.getD .empty = .ofList es := by
    obtain hgiven | ⟨homitted, rfl⟩ := hes
    · simp [draft, hgiven.known]
    · simp [draft, homitted.known, Variables.ofList]
  refine ⟨⟨r.id, .ofList es⟩, Reader.reads_record hfollows ?_, hget.alike⟩
  rw [ofDraft, hid, hvalues]

theorem HasForm.reads {r : Recipient} {ts : List Token} (h : r.HasForm ts) :
    ∃ r', reader.Reads ts r' ∧ r.Alike r' := by
  have hitem : ∀ ts, Reader.BeginsItem (.text r.id :: ts) := fun ts =>
    ⟨_, _, rfl, by simp, by simp⟩
  cases h with
  | object h => exact h.reads
  | @values es h =>
    have hvalues : Reader.BeginsItem (valueTokens es) := ⟨_, _, rfl, by simp, by simp⟩
    have hplaces : Reader.Places field ⟨none, none⟩ 0 [[.text r.id], valueTokens es]
        ⟨some r.id, some (.ofList es)⟩ :=
      .cons rfl (reads_id _ r.id) (hitem []) (.cons rfl (reads_values _ es) hvalues (.nil _ _))
    exact ⟨_, Reader.reads_record_list hplaces rfl, h.alike⟩
  | name h =>
    have hplaces : Reader.Places field ⟨none, none⟩ 0 [[.text r.id]] ⟨some r.id, none⟩ :=
      .cons rfl (reads_id _ r.id) (hitem []) (.nil _ _)
    exact ⟨_, Reader.reads_record_list hplaces rfl, h.alike⟩

def Fills (r : Recipient) (line : String) : Prop :=
  ∃ ms before cs after, r.WrittenAs ms ∧ Spells (objectTokens ms) cs ∧
    line.toList = before ++ (cs ++ after) ∧ (∀ c ∈ before, Text.isBlank c = true) ∧
    ∀ c ∈ after, Text.isBlank c = true

def OnLine (r : Recipient) (line : String) : Prop :=
  ∃ ts before cs after, r.HasForm ts ∧ Shows ts cs ∧
    (∀ c ∈ cs.head?, Text.isBlank c = false) ∧ (∀ c ∈ cs.getLast?, Text.isBlank c = false) ∧
    line.toList = before ++ (cs ++ after) ∧ (∀ c ∈ before, Text.isBlank c = true) ∧
    ∀ c ∈ after, Text.isBlank c = true

end Recipient

theorem Json.Spaces.blank {cs : List Char} (h : Spaces cs) : ∀ c ∈ cs, Text.isBlank c = true := by
  have hall : ∀ c ∈ [' ', '\n', '\t', '\r'], Text.isBlank c = true := by simp [Text.isBlank]
  exact fun c hc => hall c (h c hc)

theorem Json.Spells.exists_object {ms : List (String × List Token)} {cs : List Char}
    (h : Spells (objectTokens ms) cs) : ∃ before inner after,
      cs = before ++ ('{' :: (inner ++ ['}']) ++ after) ∧ Spaces before ∧ Spaces after ∧
        Spells (objectTokens ms) ('{' :: (inner ++ ['}'])) := by
  cases h with
  | @cons _ _ s w cs hs hw _ hcs =>
    cases hw
    obtain ⟨inner, s', rfl, hs', hinner⟩ := hcs.exists_last
    refine ⟨s, inner, s', by simp, hs, hs', ?_⟩
    exact .cons (s := []) (by simp [Spaces]) .openObject (by simp) hinner

namespace Recipient

theorem Fills.onLine {r : Recipient} {line : String} (h : r.Fills line) : r.OnLine line := by
  obtain ⟨ms, before, cs, after, hms, hcs, hline, hbefore, hafter⟩ := h
  obtain ⟨s, inner, s', rfl, hs, hs', hinner⟩ := hcs.exists_object
  refine ⟨objectTokens ms, before ++ s, '{' :: (inner ++ ['}']), s' ++ after,
    .object hms.hasMembers, hinner.shows, ?_, ?_, by simp [hline], ?_, ?_⟩
  · exact fun c hc => by cases hc; decide
  · rw [← List.cons_append, List.getLast?_concat]
    exact fun c hc => by cases hc; decide
  · exact List.forall_mem_append.mpr ⟨hbefore, hs.blank⟩
  · exact List.forall_mem_append.mpr ⟨hs'.blank, hafter⟩

def toJson (r : Recipient) : Value :=
  .object [("id", .text r.id),
    ("variables", .object (r.values.entries.reverse.map fun e => (e.1, .text e.2)))]

theorem exists_written (r : Recipient) :
    ∃ ms, r.WrittenAs ms ∧ r.toJson.Writes (objectTokens ms) := by
  have hvalues : (Value.object (r.values.entries.reverse.map fun e => (e.1, .text e.2))).Writes
      (valueTokens r.values.entries.reverse) := by
    refine writes_object (List.forall₂_map_left_iff.mpr (List.forall₂_map_right_iff.mpr ?_))
    exact List.forall₂_same.mpr fun e _ => ⟨rfl, writes_text e.2⟩
  have hwrites : r.toJson.Writes (objectTokens [("id", [.text r.id]),
      ("variables", valueTokens r.values.entries.reverse)]) :=
    writes_object (.cons ⟨rfl, writes_text r.id⟩ (.cons ⟨rfl, hvalues⟩ .nil))
  have hwritten : r.WrittenAs [("id", [.text r.id]),
      ("variables", valueTokens r.values.entries.reverse)] := by
    refine ⟨rfl, ⟨r.values.entries.reverse, .inl rfl, fun name => ?_⟩, by simp⟩
    rw [Variables.get?_ofList, List.reverse_reverse]
    rfl
  exact ⟨_, hwritten, hwrites⟩

theorem fills_line (r : Recipient) {before after : String}
    (hbefore : ∀ c ∈ before.toList, Text.isBlank c = true)
    (hafter : ∀ c ∈ after.toList, Text.isBlank c = true) :
    r.Fills (before ++ r.toJson.compact ++ after) := by
  obtain ⟨ms, hwritten, hwrites⟩ := r.exists_written
  exact ⟨ms, before.toList, _, after.toList, hwritten, hwrites.spells, by simp, hbefore, hafter⟩

theorem lineFeed_notMem_line (r : Recipient) : '\n' ∉ r.toJson.compact.toList := by
  rw [toJson]
  generalize r.values.entries.reverse = es
  have hvalues : '\n' ∉ (Value.compactMembers (es.map fun e => (e.1, Value.text e.2))).toList := by
    refine lineFeed_notMem_members fun m hm => ?_
    obtain ⟨e, -, rfl⟩ := List.mem_map.mp hm
    simp [Value.compact, lineFeed_notMem_quote]
  simp [Value.compact, Value.compactMembers, lineFeed_notMem_quote, hvalues]

end Recipient

namespace Roster

/-- The lines of the recipients, in their order. Between them there may be blank lines and others
that are no recipients. -/
inductive Lists : List String → List Recipient → Prop
  | nil : Lists [] []
  | recipient {r : Recipient} {l : String} {ls : List String} {rs : List Recipient}
      (h : r.Fills l) (hls : Lists ls rs) : Lists (l :: ls) (r :: rs)
  | blank {l : String} {ls : List String} {rs : List Recipient}
      (h : ∀ c ∈ l.toList, Text.isBlank c = true) (hls : Lists ls rs) : Lists (l :: ls) rs
  | other {l : String} {ls : List String} {rs : List Recipient} (h : ofLine? l = none)
      (hls : Lists ls rs) : Lists (l :: ls) rs

theorem ofLine?_of_onLine {r : Recipient} {l : String} (h : r.OnLine l) :
    ∃ r', ofLine? l = some r' ∧ r.Alike r' := by
  obtain ⟨ts, before, cs, after, hform, hcs, hhead, hlast, hl, hbefore, hafter⟩ := h
  obtain ⟨r', hreads, halike⟩ := hform.reads
  have hrun := hreads []
  rw [List.append_nil] at hrun
  have hne : cs ≠ [] := by
    rintro rfl
    obtain ⟨t, ts', rfl, -⟩ := hform.beginsItem
    have hnil := tokens_of_shows hcs
    rw [tokens] at hnil
    cases hnil
  have htokens : tokens (Text.trim l).toList = ts := by
    rw [Text.trim, String.toList_ofList, hl, Text.trimChars_append hbefore hafter hhead hlast hne]
    exact tokens_of_shows hcs
  refine ⟨r', ?_, halike⟩
  rw [ofLine?, Reader.decode_of_tokens htokens hrun]
  rfl

theorem ofLine?_of_blank {l : String} (h : ∀ c ∈ l.toList, Text.isBlank c = true) :
    ofLine? l = none := by
  have htokens : tokens (Text.trim l).toList = [] := by
    rw [Text.trim, String.toList_ofList, Text.trimChars_blank h, tokens]
  have hrun : Recipient.reader.run [] = .error (.malformed .endInValue) := rfl
  rw [ofLine?, Reader.decode_error_of_tokens htokens hrun]
  rfl

theorem exists_lined (rs : List Recipient) : ∃ ls text, Text.Lined ls text ∧ Lists ls rs := by
  have hfeed : ∀ l ∈ rs.map (·.toJson.compact), '\n' ∉ l.toList := by
    intro l hl
    obtain ⟨r, -, rfl⟩ := List.mem_map.mp hl
    exact r.lineFeed_notMem_line
  refine ⟨_, _, Text.lined_join hfeed, ?_⟩
  clear hfeed
  induction rs with
  | nil => exact .nil
  | cons r rs ih =>
    have hr : r.Fills ("" ++ r.toJson.compact ++ "") := r.fills_line (by simp) (by simp)
    rw [String.empty_append, String.append_empty] at hr
    exact .recipient hr ih

end Roster

end Spintax
