import Spintax.Mailing.Job
import Spintax.Proofs.Mailing.Rosters

namespace Spintax.Job

open Json

/-- Nobody can tell the recipients of the jobs apart, and otherwise the jobs are the same. -/
structure Alike (job job' : Job) : Prop where
  campaign : job.campaign = job'.campaign
  template : job.template = job'.template
  concurrency : job.concurrency = job'.concurrency
  recipients : List.Forall₂ Recipient.Alike job.recipients job'.recipients

def limitTokens : Option Nat → List Token
  | none => [.null]
  | some n => [.number (some (.integer n))]

/-- The members of an object that writes the job, in any order. The limit and the recipients may be
left out if there are none. Other members may have any value. -/
structure WrittenAs (job : Job) (ms : List (String × List Token)) : Prop where
  campaign : Given ms "campaign_id" [.text job.campaign]
  template : Given ms "template" [.text job.template]
  concurrency : Given ms "concurrency" (limitTokens job.concurrency) ∨
    Omitted ms "concurrency" ∧ job.concurrency = none
  recipients : (∃ mss, List.Forall₂ Recipient.WrittenAs job.recipients mss ∧
      Given ms "recipients" (listTokens (mss.map objectTokens))) ∨
    Omitted ms "recipients" ∧ job.recipients = []
  others : ∀ m ∈ ms, m.1 ∉ ["campaign_id", "template", "concurrency", "recipients"] → IsValue m.2

/-- Like `WrittenAs`, with the recipients in any of their forms. In the other members even strings
may be broken. -/
structure HasMembers (job : Job) (ms : List (String × List Token)) : Prop where
  campaign : Given ms "campaign_id" [.text job.campaign]
  template : Given ms "template" [.text job.template]
  concurrency : Given ms "concurrency" (limitTokens job.concurrency) ∨
    Omitted ms "concurrency" ∧ job.concurrency = none
  recipients : (∃ vs, List.Forall₂ Recipient.HasForm job.recipients vs ∧
      Given ms "recipients" (listTokens vs)) ∨ Omitted ms "recipients" ∧ job.recipients = []
  others : ∀ m ∈ ms, m.1 ∉ ["campaign_id", "template", "concurrency", "recipients"] → CanSkip m.2

/-- The forms of a job: an object, or a list of the fields. At its end the list may do without
those that are empty. -/
inductive HasForm (job : Job) : List Token → Prop
  | object {ms : List (String × List Token)} (h : job.HasMembers ms) :
      HasForm job (objectTokens ms)
  | recipients {vs : List (List Token)} (h : List.Forall₂ Recipient.HasForm job.recipients vs) :
      HasForm job (listTokens
        [[.text job.campaign], [.text job.template], limitTokens job.concurrency, listTokens vs])
  | limit (hrecipients : job.recipients = []) :
      HasForm job
        (listTokens [[.text job.campaign], [.text job.template], limitTokens job.concurrency])
  | template (hrecipients : job.recipients = []) (hlimit : job.concurrency = none) :
      HasForm job (listTokens [[.text job.campaign], [.text job.template]])

theorem WrittenAs.hasMembers {job : Job} {ms : List (String × List Token)}
    (h : job.WrittenAs ms) : job.HasMembers ms := by
  refine ⟨h.campaign, h.template, h.concurrency, ?_, fun m hm hname =>
    (h.others m hm hname).canSkip⟩
  obtain ⟨mss, hmss, hgiven⟩ | homitted := h.recipients
  · refine .inl ⟨mss.map objectTokens, ?_, hgiven⟩
    exact List.forall₂_map_right_iff.mpr (hmss.imp fun _ _ hr => .object hr.hasMembers)
  · exact .inr homitted

theorem reads_limit (limit : Option Nat) :
    (Reader.optional .natural).Reads (limitTokens limit) limit := by
  cases limit with
  | none => exact Reader.reads_null _
  | some n => exact Reader.reads_optional (Reader.reads_natural n) (by simp)

theorem beginsItem_limit (limit : Option Nat) : Reader.BeginsItem (limitTokens limit) := by
  cases limit <;> exact ⟨_, _, rfl, by simp, by simp⟩

theorem reads_recipients {rs : List Recipient} {vs : List (List Token)}
    (h : List.Forall₂ Recipient.HasForm rs vs) : ∃ rs',
      (Reader.list Recipient.reader).Reads (listTokens vs) rs' ∧
        List.Forall₂ Recipient.Alike rs rs' := by
  have hitems : ∃ rs', List.Forall₂ (fun v r => Recipient.reader.Reads v r ∧ Reader.BeginsItem v)
      vs rs' ∧ List.Forall₂ Recipient.Alike rs rs' := by
    induction h with
    | nil => exact ⟨[], .nil, .nil⟩
    | cons hr _ ih =>
      obtain ⟨r', hreads, halike⟩ := hr.reads
      obtain ⟨rs', hitems, hrs'⟩ := ih
      exact ⟨r' :: rs', .cons ⟨hreads, hr.beginsItem⟩ hitems, .cons halike hrs'⟩
  obtain ⟨rs', hitems, hrs'⟩ := hitems
  exact ⟨rs', Reader.reads_list hitems, hrs'⟩

def draft (job : Job) (known : String → Bool) : Draft where
  campaign := if known "campaign_id" then some job.campaign else none
  template := if known "template" then some job.template else none
  concurrency := if known "concurrency" then some job.concurrency else none
  recipients := if known "recipients" then some job.recipients else none

theorem follows_member (job : Job) {ms : List (String × List Token)} {vs : List Token}
    (hcampaign : Given ms "campaign_id" [.text job.campaign])
    (htemplate : Given ms "template" [.text job.template])
    (hlimit : Given ms "concurrency" (limitTokens job.concurrency) ∨ Omitted ms "concurrency")
    (hlist : Given ms "recipients" vs ∧
      (Reader.list Recipient.reader).Reads vs job.recipients ∨ Omitted ms "recipients")
    (hothers : ∀ m ∈ ms, m.1 ∉ ["campaign_id", "template", "concurrency", "recipients"] →
      CanSkip m.2) :
    Reader.Follows member .empty ms (draft job (known ms)) := by
  refine Reader.follows_of_known (draft job) ?_
  intro before k v after hms
  generalize hd : draft job (known before) = d
  by_cases h₁ : k = "campaign_id"
  · subst h₁
    obtain ⟨rfl, hnew⟩ := hcampaign.of_split hms
    refine ⟨campaignReader d, by simp [member, ← hd, draft, hnew, once], ?_⟩
    have hnext : draft job (known (before ++ [("campaign_id", [.text job.campaign])])) =
        { d with campaign := some job.campaign } := by simp [← hd, draft, known_concat]
    rw [hnext]
    exact (Reader.reads_text job.campaign).map _
  by_cases h₂ : k = "template"
  · subst h₂
    obtain ⟨rfl, hnew⟩ := htemplate.of_split hms
    refine ⟨templateReader d, by simp [member, ← hd, draft, hnew, once], ?_⟩
    have hnext : draft job (known (before ++ [("template", [.text job.template])])) =
        { d with template := some job.template } := by simp [← hd, draft, known_concat]
    rw [hnext]
    exact (Reader.reads_text job.template).map _
  by_cases h₃ : k = "concurrency"
  · subst h₃
    obtain hgiven | homitted := hlimit
    · obtain ⟨rfl, hnew⟩ := hgiven.of_split hms
      refine ⟨concurrencyReader d, by simp [member, ← hd, draft, hnew, once], ?_⟩
      have hnext : draft job (known (before ++ [("concurrency", limitTokens job.concurrency)])) =
          { d with concurrency := some job.concurrency } := by simp [← hd, draft, known_concat]
      rw [hnext]
      exact (reads_limit job.concurrency).map _
    · exact absurd hms homitted.not_split
  by_cases h₄ : k = "recipients"
  · subst h₄
    obtain ⟨hgiven, hreads⟩ | homitted := hlist
    · obtain ⟨rfl, hnew⟩ := hgiven.of_split hms
      refine ⟨recipientsReader d, by simp [member, ← hd, draft, hnew, once], ?_⟩
      have hnext : draft job (known (before ++ [("recipients", v)])) =
          { d with recipients := some job.recipients } := by simp [← hd, draft, known_concat]
      rw [hnext]
      exact hreads.map _
    · exact absurd hms homitted.not_split
  have hv : CanSkip v := hothers (k, v) (by simp [hms]) (by simp [h₁, h₂, h₃, h₄])
  refine ⟨Reader.skip.map fun _ => d, by simp [member, h₁, h₂, h₃, h₄], ?_⟩
  have hnext : draft job (known (before ++ [(k, v)])) = d := by
    simp [← hd, draft, known_concat, h₁, h₂, h₃, h₄]
  rw [hnext]
  exact (Reader.reads_skip hv).map fun _ => d

theorem HasMembers.reads {job : Job} {ms : List (String × List Token)} (h : job.HasMembers ms) :
    ∃ job', reader.Reads (objectTokens ms) job' ∧ job.Alike job' := by
  obtain ⟨vs, rs, hlist, hrs⟩ : ∃ vs rs, (Given ms "recipients" vs ∧
      (Reader.list Recipient.reader).Reads vs rs ∨ Omitted ms "recipients" ∧ rs = []) ∧
        List.Forall₂ Recipient.Alike job.recipients rs := by
    obtain ⟨vs, hvs, hgiven⟩ | ⟨homitted, hnil⟩ := h.recipients
    · obtain ⟨rs, hreads, hrs⟩ := reads_recipients hvs
      exact ⟨_, rs, .inl ⟨hgiven, hreads⟩, hrs⟩
    · exact ⟨[], [], .inr ⟨homitted, rfl⟩, by rw [hnil]; exact .nil⟩
  have hfollows := follows_member { job with recipients := rs } h.campaign h.template
    (h.concurrency.imp_right And.left) (hlist.imp_right And.left) h.others
  refine ⟨{ job with recipients := rs }, Reader.reads_record hfollows ?_, rfl, rfl, rfl, hrs⟩
  have hlimit : (draft { job with recipients := rs } (known ms)).concurrency.getD none =
      job.concurrency := by
    obtain hgiven | ⟨homitted, hnone⟩ := h.concurrency
    · simp [draft, hgiven.known]
    · simp [draft, homitted.known, hnone]
  have hrecipients : (draft { job with recipients := rs } (known ms)).recipients.getD [] = rs := by
    obtain ⟨hgiven, -⟩ | ⟨homitted, rfl⟩ := hlist
    · simp [draft, hgiven.known]
    · simp [draft, homitted.known]
  rw [ofDraft, hlimit, hrecipients]
  simp [draft, h.campaign.known, h.template.known]

theorem HasForm.reads {job : Job} {ts : List Token} (h : job.HasForm ts) :
    ∃ job', reader.Reads ts job' ∧ job.Alike job' := by
  have hitem : ∀ s : String, Reader.BeginsItem [.text s] := fun s =>
    ⟨_, _, rfl, by simp, by simp⟩
  have hcampaign (d : Draft) : (campaignReader d).Reads [.text job.campaign]
      { d with campaign := some job.campaign } := (Reader.reads_text _).map _
  have htemplate (d : Draft) : (templateReader d).Reads [.text job.template]
      { d with template := some job.template } := (Reader.reads_text _).map _
  have hlimit (d : Draft) : (concurrencyReader d).Reads (limitTokens job.concurrency)
      { d with concurrency := some job.concurrency } := (reads_limit _).map _
  have hplaces {vs : List (List Token)} {d : Draft}
      (h : Reader.Places field ⟨some job.campaign, some job.template, none, none⟩ 2 vs d) :
      Reader.Places field .empty 0 ([.text job.campaign] :: [.text job.template] :: vs) d :=
    .cons rfl (hcampaign _) (hitem _) (.cons rfl (htemplate _) (hitem _) h)
  cases h with
  | object h => exact h.reads
  | @recipients vs h =>
    obtain ⟨rs, hreads, hrs⟩ := reads_recipients h
    have hlist : Reader.BeginsItem (listTokens vs) := ⟨_, _, rfl, by simp, by simp⟩
    have hrest : Reader.Places field ⟨some job.campaign, some job.template, none, none⟩ 2
        [limitTokens job.concurrency, listTokens vs]
        ⟨some job.campaign, some job.template, some job.concurrency, some rs⟩ :=
      .cons rfl (hlimit _) (beginsItem_limit _) (.cons rfl (hreads.map _) hlist (.nil _ _))
    exact ⟨_, Reader.reads_record_list (hplaces hrest) rfl, rfl, rfl, rfl, hrs⟩
  | limit hnil =>
    have hrest : Reader.Places field ⟨some job.campaign, some job.template, none, none⟩ 2
        [limitTokens job.concurrency]
        ⟨some job.campaign, some job.template, some job.concurrency, none⟩ :=
      .cons rfl (hlimit _) (beginsItem_limit _) (.nil _ _)
    refine ⟨_, Reader.reads_record_list (hplaces hrest) rfl, rfl, rfl, rfl, ?_⟩
    rw [hnil]
    exact .nil
  | template hnil hnone =>
    refine ⟨_, Reader.reads_record_list (hplaces (.nil _ _)) rfl, rfl, rfl, hnone, ?_⟩
    rw [hnil]
    exact .nil

/-- Each job can be written if its limit is a number of 64 bits. -/
theorem exists_shows (job : Job) (h : ∀ n ∈ job.concurrency, n < UInt64.size) :
    ∃ ts text, job.HasForm ts ∧ Shows ts (String.toList text) := by
  obtain ⟨limit, hlimit⟩ : ∃ v : Value, v.Writes (limitTokens job.concurrency) := by
    cases hn : job.concurrency with
    | none => exact ⟨.null, writes_null⟩
    | some n => exact ⟨.ofNat n, writes_natural (h n hn)⟩
  obtain ⟨vs, hforms, hwrites⟩ : ∃ vs, List.Forall₂ Recipient.HasForm job.recipients vs ∧
      List.Forall₂ Value.Writes (job.recipients.map (·.toJson)) vs := by
    generalize job.recipients = rs
    induction rs with
    | nil => exact ⟨[], .nil, .nil⟩
    | cons r rs ih =>
      obtain ⟨ms, hwritten, hr⟩ := r.exists_written
      obtain ⟨vs, hforms, hwrites⟩ := ih
      exact ⟨objectTokens ms :: vs, .cons (.object hwritten.hasMembers) hforms, .cons hr hwrites⟩
  have hfields := writes_list (.cons (writes_text job.campaign) (.cons (writes_text job.template)
    (.cons hlimit (.cons (writes_list hwrites) .nil))))
  exact ⟨_, _, .recipients hforms, hfields.spells.shows⟩

theorem exists_read_of_form {job : Job} {ts : List Token} {text : String} (h : job.HasForm ts)
    (hts : tokens text.toList = ts) : ∃ job', ofJson text = .ok job' ∧ job.Alike job' := by
  obtain ⟨job', hreads, halike⟩ := h.reads
  have hrun := hreads []
  rw [List.append_nil] at hrun
  exact ⟨job', Reader.decode_of_tokens hts hrun, halike⟩

/-- A text that shows the job in one of its forms is read as that job. -/
theorem ofJson_of_shows {job : Job} {ts : List Token} {text : String} (h : job.HasForm ts)
    (hs : Shows ts text.toList) : ∃ job', ofJson text = .ok job' ∧ job.Alike job' :=
  exists_read_of_form h (tokens_of_shows hs)

/-- The member `z` does not matter, although its string is only half of a pair. Of the two values
for `x` the last one is meant. -/
theorem ofJson_of_shows_halfPair :
    let job : Job := ⟨"c", "t", some 4, [⟨"a", .ofList [("x", "2")]⟩]⟩
    let recipient := objectTokens [("id", [.text "a"]),
      ("variables", objectTokens [("x", [.text "1"]), ("x", [.text "2"])])]
    let ts := objectTokens [("z", [.brokenText .halfPair]), ("campaign_id", [.text "c"]),
      ("concurrency", [.number (some (.integer 4))]), ("template", [.text "t"]),
      ("recipients", listTokens [recipient])]
    let text := "\x7b\"z\":\"\\ud800\",\"campaign_id\":\"c\",\"concurrency\":4," ++
      "\"template\":\"t\",\"recipients\":[\x7b\"id\":\"a\"," ++
      "\"variables\":\x7b\"x\":\"1\",\"x\":\"2\"\x7d\x7d]\x7d"
    job.HasForm ts ∧ Shows ts text.toList ∧ ∃ job', ofJson text = .ok job' ∧ job.Alike job' := by
  intro job recipient ts text
  have hrecipient : Recipient.HasForm ⟨"a", .ofList [("x", "2")]⟩ recipient := by
    refine .object ⟨rfl, ⟨[("x", "1"), ("x", "2")], .inl rfl, fun name => ?_⟩, by simp⟩
    rw [Variables.get?_ofList]
    by_cases hx : name = "x" <;> simp [hx, Entries.lookup_cons]
  have hform : job.HasForm ts := by
    refine .object ⟨rfl, rfl, .inl rfl, .inl ⟨[recipient], .cons hrecipient .nil, rfl⟩, ?_⟩
    simp [CanSkip.string (.inr ⟨.halfPair, rfl⟩)]
  have hspaces : Spaces [] := by simp [Spaces]
  have hclose : Spells [.closeObject] ['}'] := .token .closeObject (by simp) (.nil hspaces)
  have hvalues : (Value.object [("x", .text "1"), ("x", .text "2")]).Writes
      (objectTokens [("x", [.text "1"]), ("x", [.text "2"])]) :=
    writes_object (.cons ⟨rfl, writes_text "1"⟩ (.cons ⟨rfl, writes_text "2"⟩ .nil))
  have hitem : (Value.object [("id", .text "a"),
      ("variables", .object [("x", .text "1"), ("x", .text "2")])]).Writes recipient :=
    writes_object (.cons ⟨rfl, writes_text "a"⟩ (.cons ⟨rfl, hvalues⟩ .nil))
  let members : List (String × Value) :=
    [("campaign_id", .text "c"), ("concurrency", .ofNat 4), ("template", .text "t"),
      ("recipients", .list [.object [("id", .text "a"),
        ("variables", .object [("x", .text "1"), ("x", .text "2")])]])]
  have hmembers : List.Forall₂ (fun m mt => m.1 = mt.1 ∧ m.2.Writes mt.2) members
      [("campaign_id", [.text "c"]), ("concurrency", [.number (some (.integer 4))]),
        ("template", [.text "t"]), ("recipients", listTokens [recipient])] :=
    .cons ⟨rfl, writes_text "c"⟩ (.cons ⟨rfl, writes_natural (by decide)⟩
      (.cons ⟨rfl, writes_text "t"⟩ (.cons ⟨rfl, writes_list (.cons hitem .nil)⟩ .nil)))
  have hdigit : ∀ n < 16, IsHexDigit n (hexDigit n) := fun n hn => ⟨hn, .inl rfl⟩
  have hunit : SpellsUnits [0xD800] ['\\', 'u', 'd', '8', '0', '0'] :=
    .unit (.digits (hdigit 13 (by decide)) (hdigit 8 (by decide)) (hdigit 0 (by decide))
      (hdigit 0 (by decide))) .nil
  have hbroken : ∀ cs, Token.textOf (['\\', 'u', 'd', '8', '0', '0'] ++ '"' :: cs) [0xD800] =
      .brokenText .halfPair := by
    intro cs
    have hchars : Token.chars? [0xD800] = none := by decide
    have hhigh : Token.unit? 'd' '8' '0' '0' = some 0xD800 := by decide
    simp [Token.textOf, hchars, Token.stringFault, hhigh, Token.surrogateFault?, Token.isLow,
      Token.isHigh]
  have hknown := emits_members hmembers _ _ (by simp [EndsNumber]) hclose
  have hrest := Shows.cons hspaces .comma (by simp) hknown.shows
  have hvalue := Shows.cons hspaces .colon (by simp) (.broken hspaces hunit (hbroken _) hrest)
  have hname := Shows.cons hspaces (spells_quote "z") (by simp) hvalue
  have htext : text.toList = '{' :: ((quote "z").toList ++ ':' :: '"' ::
      (['\\', 'u', 'd', '8', '0', '0'] ++ '"' :: ',' ::
        ((Value.compactMembers members).toList ++ ['}']))) := by
    dsimp only [text, members]
    cbv
  have hopen := Shows.cons hspaces .openObject (by simp) hname
  have hs : Shows ts text.toList := by
    rw [htext]
    simp only [List.nil_append, List.cons_append] at hopen ⊢
    exact hopen
  exact ⟨hform, hs, ofJson_of_shows hform hs⟩

inductive Holds (text : String) : Job → Prop
  | written {job : Job} {ms : List (String × List Token)} (h : job.WrittenAs ms)
      (hs : Spells (objectTokens ms) text.toList) : Holds text job
  | read {job : Job} (h : ofJson text = .ok job) : Holds text job

theorem Holds.exists_read {text : String} {job : Job} (h : Holds text job) :
    ∃ job', ofJson text = .ok job' ∧ job.Alike job' := by
  cases h with
  | @written ms h hs =>
    exact exists_read_of_form (.object h.hasMembers) (tokens_of_spells hs)
  | read h =>
    have hrefl : ∀ r : Recipient, r.Alike r := fun r => ⟨rfl, fun _ => rfl⟩
    exact ⟨job, h, rfl, rfl, rfl, List.forall₂_same.mpr fun r _ => hrefl r⟩

end Spintax.Job
