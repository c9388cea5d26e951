import Spintax.Proofs.Campaign.Conservation
import Spintax.Proofs.Mailing.Moves

namespace Spintax

theorem Tracker.Accounts.recordAll {t : Tracker} {rs : List Tracker.Request}
    (h : Tracker.Accounts t rs) (campaign : String)
    (records : List (Timestamp × Nat × List Choice)) :
    ∃ rs', Tracker.Accounts (t.recordAll campaign records) rs' ∧
      Tracker.current campaign rs' = Tracker.current campaign rs ++ records.map (·.2.2) := by
  induction records generalizing t rs with
  | nil => exact ⟨rs, h, by simp⟩
  | cons e records ih =>
    obtain ⟨rs', h', hcurrent⟩ := ih (h.step (.record e.1 e.2.1 campaign e.2.2))
    refine ⟨rs', h', ?_⟩
    rw [hcurrent, Tracker.current_record, if_pos rfl, List.map_cons, List.append_assoc,
      List.singleton_append]

/-- A mailer and the mailings that share it. -/
structure Office where
  mailer : Mailer
  runs : List Run

namespace Office

def step (f : Office) (now : Timestamp) (i : Nat) (a : Step) :
    Option (Option Outcome × Office) :=
  match f.runs[i]? with
  | some r => ((Shift.mk f.mailer r).step now a).map fun (o, s) =>
    (o, ⟨s.mailer, f.runs.set i s.run⟩)
  | none => none

def follow : List (Timestamp × Nat × Step) → Office → List Outcome × Office
  | [], f => ([], f)
  | (now, i, a) :: as, f =>
    match f.step now i a with
    | none => follow as f
    | some (o, f) => (o.toList ++ (follow as f).1, (follow as f).2)

/-- All mailings send renderings of the template for the campaign, and the tracker has got the
messages that were made for them. The outcomes `os` are those that were yielded; the outcomes that
were `made` are these and those that the mailings still hold. -/
structure Sends (campaign : String) (t : Template) (tracker : Tracker) (f : Office)
    (os made : List Outcome) (records : List (Timestamp × Nat × List Choice)) : Prop where
  runs : ∀ r ∈ f.runs, r.Orderly ∧ r.campaign = campaign ∧ r.template = t
  entered : f.mailer.tracker = tracker.recordAll campaign records
  renders : List.Forall₂ t.Renders (Outcome.messages made) (records.map (·.2.2))
  known : (os ++ f.runs.flatMap Run.held).Perm made

variable {campaign : String} {t : Template} {tracker : Tracker} {f f' : Office}
  {os made : List Outcome} {records : List (Timestamp × Nat × List Choice)} {now : Timestamp}
  {i : Nat} {a : Step} {o : Option Outcome}

theorem step_eq_some (h : f.step now i a = some (o, f')) :
    ∃ l r us s, f.runs = l ++ r :: us ∧ l.length = i ∧
      (Shift.mk f.mailer r).step now a = some (o, s) ∧ f' = ⟨s.mailer, l ++ s.run :: us⟩ := by
  unfold step at h
  split at h
  · next r hr =>
    obtain ⟨⟨o', s⟩, hs, he⟩ := Option.map_eq_some_iff.mp h
    cases he
    obtain ⟨hi, hri⟩ := List.getElem?_eq_some_iff.mp hr
    refine ⟨f.runs.take i, r, f.runs.drop (i + 1), s, ?_, ?_, hs, ?_⟩
    · rw [← hri, List.cons_getElem_drop_succ, List.take_append_drop]
    · exact List.length_take_of_le (Nat.le_of_lt hi)
    · rw [List.set_eq_take_append_cons_drop, if_pos hi]
  · cases h

/-- A step of one mailing leaves the others as they are. -/
theorem Sends.step (h : f.Sends campaign t tracker os made records)
    (hf : f.step now i a = some (o, f')) : ∃ made' records',
      f'.Sends campaign t tracker (os ++ o.toList) (made ++ made') (records ++ records') := by
  obtain ⟨hruns, hentered, hrenders, hknown⟩ := h
  obtain ⟨l, r, us, s, hl, -, hs, rfl⟩ := step_eq_some hf
  rw [hl, List.forall_mem_append, List.forall_mem_cons] at hruns
  rw [hl, List.flatMap_append, List.flatMap_cons] at hknown
  obtain ⟨hl, ⟨horderly, rfl, rfl⟩, hus⟩ := hruns
  have hmove := Shift.move_of_step horderly.numbered hs
  have halike := hmove.alike
  obtain ⟨made', records', htracker, hrenders', hheld⟩ := hmove.makes
  refine ⟨made', records', ?_, ?_, ?_, ?_⟩
  · rw [List.forall_mem_append, List.forall_mem_cons]
    exact ⟨hl, ⟨hmove.orderly horderly, halike.campaign, halike.template⟩, hus⟩
  · rw [Tracker.recordAll_append, ← hentered]
    exact htracker
  · rw [Outcome.messages, List.filterMap_append, List.map_append]
    exact List.rel_append hrenders hrenders'
  · rw [List.perm_iff_count] at hknown hheld ⊢
    intro x
    have hk := hknown x
    have hh := hheld x
    simp only [List.count_append, List.flatMap_append, List.flatMap_cons] at hk hh ⊢
    omega

theorem Sends.follow (h : f.Sends campaign t tracker os made records)
    (as : List (Timestamp × Nat × Step)) : ∃ made records,
      (follow as f).2.Sends campaign t tracker (os ++ (follow as f).1) made records := by
  induction as generalizing f os made records with
  | nil => exact ⟨made, records, by rwa [Office.follow, List.append_nil]⟩
  | cons a as ih =>
    obtain ⟨now, i, a⟩ := a
    rw [Office.follow]
    split
    · exact ih h
    · next hstep =>
      obtain ⟨made', records', h'⟩ := h.step hstep
      rw [← List.append_assoc]
      exact ih h'

theorem sends_start (campaign : String) (t : Template) (m : Mailer)
    (jobs : List (Nat × (Nat → Option Recipient))) :
    Sends campaign t m.tracker ⟨m, jobs.map fun j => .start campaign t j.1 j.2⟩ [] [] [] where
  runs r hr := by
    obtain ⟨j, -, rfl⟩ := List.mem_map.mp hr
    exact ⟨Run.orderly_start campaign t j.1 j.2, rfl, rfl⟩
  entered := rfl
  renders := .nil
  known := by
    refine .of_eq (List.flatMap_eq_nil_iff.mpr fun r hr => ?_)
    obtain ⟨j, -, rfl⟩ := List.mem_map.mp hr
    exact Run.held_eq_nil rfl

theorem Sends.closed (h : f.Sends campaign t tracker os made records)
    (hc : ∀ r ∈ f.runs, r.closed = true) : f.runs.flatMap Run.held = [] :=
  List.flatMap_eq_nil_iff.mpr fun r hr => (h.runs r hr).1.held_eq_nil (hc r hr)

/-- The records can be put in the order of the messages. -/
theorem Sends.exists_choices (h : f.Sends campaign t tracker os made records) :
    ∃ ms, List.Forall₂ t.Renders (Outcome.messages (os ++ f.runs.flatMap Run.held)) ms ∧
      ms.Perm (records.map (·.2.2)) := by
  have hcomp : Relation.Comp (List.Forall₂ t.Renders) List.Perm
      (Outcome.messages (os ++ f.runs.flatMap Run.held)) (records.map (·.2.2)) := by
    rw [List.forall₂_comp_perm_eq_perm_comp_forall₂]
    exact ⟨_, h.known.filterMap _, h.renders⟩
  exact hcomp

end Office

/-- Renderings of a template are recorded for a campaign, and then mailings send more of them.
The statistics add up over the tree of the template before and after. After some steps of the
mailings they are those of the messages that were made until then, and these are the ones that were
delivered as soon as all mailings are at their end. -/
theorem Template.conserved {text : String} {t : Template} (ht : parse text = .ok t)
    {campaign : String} {rs : List Tracker.Request}
    (hrs : ∀ cs ∈ Tracker.current campaign rs, t.Shows cs) :
    (∀ now s, (Tracker.run rs .empty).2.snapshot now campaign = some s →
      s.Conserved t (Tracker.current campaign rs)) ∧
    ∀ m : Mailer, m.tracker = (Tracker.run rs .empty).2 →
    ∀ (jobs : List (Nat × (Nat → Option Recipient))) (as : List (Timestamp × Nat × Step)),
      let f := Office.follow as ⟨m, jobs.map fun j => .start campaign t j.1 j.2⟩
      let os := f.1 ++ f.2.runs.flatMap Run.held
      ((∀ r ∈ f.2.runs, r.closed = true) → os = f.1) ∧
      ∃ ms, List.Forall₂ t.Renders (Outcome.messages os) ms ∧
        ms.length = os.countP Outcome.isSuccess ∧
        ∀ now,
          (f.2.mailer.tracker.snapshot now campaign = none ↔
            Tracker.current campaign rs ++ ms = []) ∧
          ∀ s, f.2.mailer.tracker.snapshot now campaign = some s →
            s.Conserved t (Tracker.current campaign rs ++ ms) := by
  have haccounts : Tracker.Accounts (Tracker.run rs .empty).2 rs := Tracker.Accounts.empty.run rs
  refine ⟨fun now s hs => conserved_of_tells ht hrs (haccounts.tells_snapshot hs).2, ?_⟩
  intro m hm jobs as f os
  obtain ⟨made, records, hsends⟩ := (Office.sends_start campaign t m jobs).follow as
  rw [List.nil_append] at hsends
  obtain ⟨rs', haccounts', hcurrent⟩ := haccounts.recordAll campaign records
  rw [← hm, ← hsends.entered] at haccounts'
  obtain ⟨ms, hms, hperm⟩ := hsends.exists_choices
  have hperm' : (Tracker.current campaign rs').Perm (Tracker.current campaign rs ++ ms) := by
    rw [hcurrent]
    exact hperm.symm.append_left _
  have hshows : ∀ cs ∈ Tracker.current campaign rs', t.Shows cs := by
    rw [hcurrent, List.forall_mem_append]
    exact ⟨hrs, shows_of_renders hsends.renders⟩
  refine ⟨fun hc => ?_, ms, hms, ?_, fun now => ⟨?_, fun s hs => ?_⟩⟩
  · exact (congrArg _ (hsends.closed hc)).trans (List.append_nil _)
  · rw [← hms.length_eq, Outcome.length_messages]
  · rw [haccounts'.snapshot_eq_none, List.eq_nil_iff_length_eq_zero, hperm'.length_eq,
      ← List.eq_nil_iff_length_eq_zero]
  · have htells := (haccounts'.tells_snapshot hs).2
    exact (conserved_of_tells ht hshows htells).perm hperm'

theorem Template.conserved_nested :
    let rs : List Tracker.Request := [.record "0" 5 "c" [⟨0, 0⟩]]
    let m : Mailer := { Mailer.start (.empty .standard fun _ => 0) .strict .standard
      fun n => .splitMix (.ofNat n) with tracker := (Tracker.run rs .empty).2 }
    let recipients : List Recipient := [⟨"1", .ofList [("x", "y")]⟩, ⟨"2", .empty⟩]
    let jobs : List (Nat × (Nat → Option Recipient)) :=
      [(1, (recipients[·]?)), (2, (recipients[·]?))]
    let as : List (Timestamp × Nat × Step) :=
      [(0, .schedule), (1, .schedule), (1, .schedule), (1, .begin 1), (0, .begin 0),
        (0, .render 0 0), (1, .render 1 1), (1, .leave 1), (1, .finish 1), (1, .cancel),
        (1, .lose 0), (1, .finish 0), (1, .yield 0), (1, .yield 1), (0, .leave 0), (0, .finish 0),
        (0, .yield 0), (0, .schedule), (0, .begin 1), (0, .render 1 0), (0, .leave 1),
        (0, .finish 1), (0, .yield 1), (0, .schedule), (0, .close), (1, .schedule),
        (1, .close)].map ("1", ·)
    ∃ t, Template.parse "{{{x}}|{b|{{x}}}}" = .ok t ∧
      (∀ cs ∈ Tracker.current "c" rs, t.Shows cs) ∧
      let f := Office.follow as ⟨m, jobs.map fun j => .start "c" t j.1 j.2⟩
      ∃ ms s, f.2.mailer.tracker.snapshot "2" "c" = some s ∧
        s.Conserved t ([⟨0, 0⟩] :: ms) ∧ List.Forall₂ t.Renders (Outcome.messages f.1) ms ∧
        ms.length = 1 := by
  intro rs m recipients jobs as
  obtain ⟨t, ht, ⟨r, hr, hchoices⟩, hc, hsuccess⟩ : ∃ t,
      Template.parse "{{{x}}|{b|{{x}}}}" = .ok t ∧
      (∃ r, t.render .strict [0, 0] (.ofList [("x", "y")]) = .ok r ∧ r.choices = [⟨0, 0⟩]) ∧
      (Office.follow as ⟨m, jobs.map fun j => .start "c" t j.1 j.2⟩).2.runs.map Run.closed =
        [true, true] ∧
      (Office.follow as ⟨m, jobs.map fun j => .start "c" t j.1 j.2⟩).1.countP
        Outcome.isSuccess = 1 :=
    ⟨_, by cbv, ⟨_, by cbv, by cbv⟩, by cbv, by cbv⟩
  have hcurrent : Tracker.current "c" rs = [[⟨0, 0⟩]] := by decide
  have hrs : ∀ cs ∈ Tracker.current "c" rs, t.Shows cs := by
    rw [hcurrent, List.forall_mem_singleton]
    exact ⟨.strict, _, _, r, hr, hchoices⟩
  have hclosed : ∀ r ∈ (Office.follow as ⟨m, jobs.map fun j =>
      .start "c" t j.1 j.2⟩).2.runs, r.closed = true := by
    intro r hr
    have hmem := List.mem_map_of_mem (f := Run.closed) hr
    rw [hc] at hmem
    simpa using hmem
  refine ⟨t, ht, hrs, ?_⟩
  have hm : m.tracker = (Tracker.run rs .empty).2 := rfl
  clear_value as jobs m
  obtain ⟨hf, ms, hms, hlen, h⟩ := (Template.conserved ht hrs).2 m hm jobs as
  obtain ⟨hnone, hsome⟩ := h "2"
  rw [hf hclosed] at hms hlen
  rw [hcurrent] at hnone hsome
  intro f
  cases hs : f.2.mailer.tracker.snapshot "2" "c" with
  | none => exact absurd (hnone.mp hs) (List.cons_ne_nil _ _)
  | some s => exact ⟨ms, s, rfl, hsome s hs, hms, hlen.trans hsuccess⟩

end Spintax
