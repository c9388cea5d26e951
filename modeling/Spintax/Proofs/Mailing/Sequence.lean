import Spintax.Mailing.Delivery
import Spintax.Proofs.Mailing.Moves
import Spintax.Proofs.Rendering.Plain
import Spintax.Proofs.Text.Lines

namespace Spintax

/-- The worker is free, and these recipients are to come. -/
structure Run.Awaits (r : Run) (rs : List Recipient) : Prop where
  limit : r.limit = 1
  tasks : r.tasks = []
  exhausted : r.exhausted = false
  cancelled : r.cancelled = false
  source : ∀ i, r.source (r.taken + i) = rs[i]?

theorem Run.awaits_start (campaign : String) (t : Template) (rs : List Recipient) :
    (start campaign t 1 (rs[·]?)).Awaits rs where
  limit := rfl
  tasks := rfl
  exhausted := rfl
  cancelled := rfl
  source i := by simp [start]

namespace Mailer

def renderAll (now : Timestamp) (campaign : String) (t : Template) :
    List Recipient → Mailer → List Outcome × Mailer
  | [], m => ([], m)
  | r :: rs, m =>
    let (o, m) := m.render now 0 campaign t r.id r.values
    let (os, m) := renderAll now campaign t rs m
    (o :: os, m)

end Mailer

namespace Shift

variable {s : Shift} {now : Timestamp} {r : Recipient} {rs : List Recipient} {o : Outcome}
  {m : Mailer}

theorem fill_one (h : s.run.Awaits (r :: rs)) : fill now 1 s =
    { s with run :=
      { s.run with
        taken := s.run.taken + 1
        tasks := [⟨s.run.progress.scheduled, r, .waiting⟩]
        progress := s.run.progress.schedule } } := by
  have hr : s.run.source s.run.taken = some r := h.source 0
  simp [fill, step, h.limit, h.tasks, h.exhausted, Run.schedule, h.cancelled, hr]

theorem perform_service {n : Nat} (ht : s.run.tasks = [⟨n, r, .waiting⟩])
    (hm : s.mailer.render now 0 s.run.campaign s.run.template r.id r.values = (o, m)) :
    ∃ progress, perform now (service n) s =
      ([o], ⟨m, { s.run with tasks := [], progress, yielded := s.run.yielded + 1 }⟩) := by
  refine ⟨((s.run.progress.enter).leave).finish o.isSuccess, ?_⟩
  simp [service, perform, step, Run.task?, taskStep, Run.move, ht, hm]

theorem pull_cons (h : s.run.Awaits (r :: rs))
    (hm : s.mailer.render now 0 s.run.campaign s.run.template r.id r.values = (o, m)) :
    ∃ run, s.pull now = (some o, ⟨m, run⟩) ∧ run.Awaits rs ∧ run.campaign = s.run.campaign ∧
      run.template = s.run.template := by
  have hsource : ∀ i, s.run.source (s.run.taken + 1 + i) = rs[i]? := by
    intro i
    rw [Nat.add_assoc, Nat.add_comm 1 i, h.source, List.getElem?_cons_succ]
  rw [pull, h.limit, fill_one h]
  obtain ⟨progress, hp⟩ := perform_service (s := { s with run :=
      { s.run with
        taken := s.run.taken + 1
        tasks := [⟨s.run.progress.scheduled, r, .waiting⟩]
        progress := s.run.progress.schedule } }) rfl hm
  dsimp only
  rw [hp]
  exact ⟨_, rfl, ⟨h.limit, rfl, h.exhausted, h.cancelled, hsource⟩, rfl, rfl⟩

theorem pull_nil (h : s.run.Awaits []) (now : Timestamp) : ∃ s', s.pull now = (none, s') ∧
    s'.mailer.tracker = s.mailer.tracker ∧ s'.run.campaign = s.run.campaign ∧
      s'.run.cancelled = false := by
  have hnone : s.run.source s.run.taken = none := h.source 0
  have hfill : fill now 1 s = { s with run := { s.run with exhausted := true } } := by
    simp [fill, step, h.limit, h.tasks, h.exhausted, Run.schedule, hnone]
  refine ⟨(perform now [.close] { s with run := { s.run with exhausted := true } }).2, ?_, ?_⟩
  · rw [pull, h.limit, hfill]
    simp only [h.tasks]
  · simp only [perform, step, h.tasks, List.isEmpty_nil, Bool.and_self, if_true, Run.close]
    split
    · exact ⟨rfl, rfl, h.cancelled⟩
    · exact ⟨rfl, rfl, h.cancelled⟩

/-- One worker renders the messages in the order of the recipients. -/
theorem pulls_all (h : s.run.Awaits rs) (now : Timestamp) : ∃ s',
    s.pulls now (rs.length + 1) =
      ((s.mailer.renderAll now s.run.campaign s.run.template rs).1, s') ∧
    s'.mailer.tracker = (s.mailer.renderAll now s.run.campaign s.run.template rs).2.tracker ∧
    s'.run.campaign = s.run.campaign ∧ s'.run.cancelled = false := by
  induction rs generalizing s with
  | nil =>
    obtain ⟨s', hpull, hs'⟩ := pull_nil h now
    refine ⟨s', ?_, hs'⟩
    rw [List.length_nil, pulls, hpull]
    rfl
  | cons r rs ih =>
    rcases hm : s.mailer.render now 0 s.run.campaign s.run.template r.id r.values with ⟨o, m⟩
    obtain ⟨run, hpull, hrun, hcampaign, htemplate⟩ := pull_cons h hm
    obtain ⟨s', hpulls, htracker, hcampaign', hcancelled⟩ := ih (s := ⟨m, run⟩) hrun
    dsimp only at hpulls htracker hcampaign'
    rw [hcampaign, htemplate] at hpulls htracker
    rw [Mailer.renderAll, hm]
    refine ⟨s', ?_, htracker, hcampaign'.trans hcampaign, hcancelled⟩
    rw [List.length_cons, pulls, hpull]
    dsimp only
    rw [hpulls]

end Shift

namespace Template

def outcome (t : Template) (policy : Policy) (r : Recipient) : Outcome :=
  if policy.Covers t r.values then .succeeded ⟨r.id, t.plain r.values, []⟩
  else .failed ⟨r.id, .render (.missingVariable (t.firstLacking r.values))⟩

theorem outcome_eq {t : Template} (h : t.groupCount = 0) (policy : Policy) (r : Recipient) :
    t.outcome policy r = match t.render policy [] r.values with
      | .ok m => .succeeded ⟨r.id, m.text, m.path⟩
      | .error e => .failed ⟨r.id, .render e⟩ := by
  rw [render_plain h, outcome]
  by_cases hc : policy.Covers t r.values <;> simp [hc]

end Template

namespace Outcome

def failure? : Outcome → Option Failure
  | succeeded _ => none
  | failed f => some f

def failures (os : List Outcome) : List Failure :=
  os.filterMap failure?

variable {t : Template} {policy : Policy}

end Outcome

def Message.lines (ms : List Message) : String :=
  String.join (ms.map (·.toJson.compact ++ "\n"))

def Summary.ofOutcomes (campaign : String) (os : List Outcome) : Summary :=
  ⟨campaign, (Outcome.messages os).length, (Outcome.failures os).length, 0, false,
    Outcome.failures os⟩

namespace Mailer

variable {t : Template} {m : Mailer}

theorem render_plain (h : t.groupCount = 0) (now : Timestamp) (campaign : String) (r : Recipient) :
    ∃ m', m.render now 0 campaign t r.id r.values = (t.outcome m.policy r, m') ∧
      m'.policy = m.policy ∧ m'.tracker = m.tracker.recordAll campaign
        ((t.outcome m.policy r).message?.toList.map fun _ => (now, 0, [])) := by
  have hdrawn := t.renderRandom_plain h m.policy r.values (m.supply m.served)
  rw [t.render_plain h] at hdrawn
  rw [render, hdrawn, Template.outcome]
  by_cases hc : m.policy.Covers t r.values
  · simp only [if_pos hc]
    exact ⟨_, rfl, rfl, rfl⟩
  · simp only [if_neg hc]
    exact ⟨_, rfl, rfl, rfl⟩

theorem renderAll_plain (h : t.groupCount = 0) (now : Timestamp) (campaign : String)
    (rs : List Recipient) : (m.renderAll now campaign t rs).1 = rs.map (t.outcome m.policy) ∧
      (m.renderAll now campaign t rs).2.tracker = m.tracker.recordAll campaign
        ((Outcome.messages (rs.map (t.outcome m.policy))).map fun _ => (now, 0, [])) := by
  induction rs generalizing m with
  | nil => exact ⟨rfl, rfl⟩
  | cons r rs ih =>
    obtain ⟨m', hm', hpolicy, htracker⟩ := render_plain h now campaign r (m := m)
    obtain ⟨hos, hall⟩ := ih (m := m')
    rw [hpolicy] at hos hall
    simp only [renderAll, hm']
    refine ⟨by rw [hos]; rfl, ?_⟩
    rw [hall, htracker, ← Tracker.recordAll_append, Outcome.messages, Outcome.messages,
      List.map_cons, List.filterMap_cons]
    cases (t.outcome m.policy r).message? <;> rfl

end Mailer

namespace Sink

theorem offerAll_jsonLines (campaign : String) (os : List Outcome) (text : String) :
    jsonLines.offerAll campaign false os ⟨text.toUTF8, none⟩ =
      (.ofOutcomes campaign os, ⟨(text ++ Message.lines (Outcome.messages os)).toUTF8, none⟩) := by
  induction os generalizing text with
  | nil =>
    rw [offerAll, Outcome.messages, List.filterMap_nil, Message.lines, List.map_nil,
      String.join_nil, String.append_empty]
    rfl
  | cons o os ih =>
    cases o with
    | failed f =>
      simp only [offerAll, offer, ih]
      rfl
    | succeeded m =>
      have hwrite : jsonLines.deliver m ⟨text.toUTF8, none⟩ =
          (.ok (), ⟨(text ++ (m.toJson.compact ++ "\n")).toUTF8, none⟩) := by
        simp only [jsonLines, Medium.write, String.toUTF8, String.toByteArray_append]
      have hlines : Message.lines (Outcome.messages (.succeeded m :: os)) =
          m.toJson.compact ++ "\n" ++ Message.lines (Outcome.messages os) := by
        have hcons : Outcome.messages (.succeeded m :: os) = m :: Outcome.messages os := rfl
        rw [hcons, Message.lines, List.map_cons, String.join_cons]
        rfl
      simp only [offerAll, offer, hwrite, ih, hlines, String.append_assoc]
      rfl

end Sink

theorem Shift.deliverTo_plain {s : Shift} {rs : List Recipient} (h : s.run.Awaits rs)
    (ht : s.run.template.groupCount = 0) (now : Timestamp) :
    let os := rs.map (s.run.template.outcome s.mailer.policy)
    ∃ s', s.deliverTo now (rs.length + 1) .jsonLines .unlimited =
        (.ofOutcomes s.run.campaign os, ⟨(Message.lines (Outcome.messages os)).toUTF8, none⟩, s') ∧
      s'.mailer.tracker = s.mailer.tracker.recordAll s.run.campaign
        ((Outcome.messages os).map fun _ => (now, 0, [])) := by
  intro os
  obtain ⟨s', hpulls, htracker, hcampaign, hcancelled⟩ := pulls_all h now
  obtain ⟨hos, hall⟩ := Mailer.renderAll_plain ht now s.run.campaign rs (m := s.mailer)
  have hempty : Medium.unlimited = ⟨("" : String).toUTF8, none⟩ := rfl
  refine ⟨s', ?_, htracker.trans hall⟩
  rw [deliverTo, hpulls, hos]
  dsimp only
  rw [hcampaign, hcancelled, hempty, Sink.offerAll_jsonLines, String.empty_append]

end Spintax
