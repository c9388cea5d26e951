import Spintax.Proofs.Mailing.Turns
import Spintax.Proofs.Rendering.Visits

namespace Spintax

/-- Enter messages of a campaign into the tracker, each at its time and into a shard. -/
def Tracker.recordAll (t : Tracker) (campaign : String)
    (records : List (Timestamp × Nat × List Choice)) : Tracker :=
  records.foldl (fun t e => t.record e.1 e.2.1 campaign e.2.2) t

theorem Tracker.recordAll_append (t : Tracker) (campaign : String)
    (records records' : List (Timestamp × Nat × List Choice)) :
    t.recordAll campaign (records ++ records') =
      (t.recordAll campaign records).recordAll campaign records' :=
  List.foldl_append

namespace Outcome

def message? : Outcome → Option Message
  | succeeded m => some m
  | failed _ => none

def messages (os : List Outcome) : List Message :=
  os.filterMap message?

theorem length_messages (os : List Outcome) : (messages os).length = os.countP isSuccess := by
  induction os with
  | nil => rfl
  | cons o os ih =>
    rw [messages, List.filterMap_cons, List.countP_cons, ← ih]
    cases o <;> rfl

end Outcome

namespace Template

/-- The message is a rendering of the template along its path, and these are the choices that the
rendering shows. -/
def Renders (t : Template) (m : Message) (cs : List Choice) : Prop :=
  ∃ policy vs r, t.render policy m.path vs = .ok r ∧ r.text = m.text ∧ r.choices = cs

variable {t : Template}

theorem Renders.shows {m : Message} {cs : List Choice} (h : t.Renders m cs) : t.Shows cs := by
  obtain ⟨policy, vs, r, hr, -, hcs⟩ := h
  exact ⟨policy, m.path, vs, r, hr, hcs⟩

theorem shows_of_renders {ms : List Message} {css : List (List Choice)}
    (h : List.Forall₂ t.Renders ms css) : ∀ cs ∈ css, t.Shows cs := by
  induction h with
  | nil => simp
  | cons hfirst _ ih => exact List.forall_mem_cons.mpr ⟨hfirst.shows, ih⟩

theorem renders_of_renderRandom {policy : Policy} {vs : Variables} {s s' : Supply} {r : Rendered}
    (id : String) (h : t.renderRandom policy vs s = .ok (.ok r, s')) :
    t.Renders ⟨id, r.text, r.path⟩ r.choices := by
  obtain ⟨⟨p, s₁⟩, -, he⟩ := Result.map_eq_ok.mp h
  have hr : t.render policy p vs = .ok r := (Prod.mk.inj he).1
  have hpath : r.path = p := by
    unfold render at hr
    split at hr
    · obtain ⟨q, -, rfl⟩ := Result.map_eq_ok.mp hr
      rfl
    · cases hr
  exact ⟨policy, vs, r, by rwa [hpath], rfl, rfl⟩

end Template

namespace Run

/-- The outcomes that are known but were not yielded yet. -/
def held (r : Run) : List Outcome :=
  r.tasks.filterMap (·.stage.outcome?)

theorem held_eq_nil {r : Run} (h : r.tasks = []) : r.held = [] := by
  rw [held, h, List.filterMap_nil]

theorem held_split {r : Run} {l us : List Task} {t : Task} (h : r.tasks = l ++ t :: us) :
    r.held.Perm (t.stage.outcome?.toList ++ (l ++ us).filterMap (·.stage.outcome?)) := by
  rw [held, h, List.filterMap_append, List.filterMap_cons, List.filterMap_append]
  cases t.stage.outcome? with
  | none => exact .refl _
  | some o => exact List.perm_middle

theorem held_change {r : Run} {l us : List Task} {t : Task} (h : r.tasks = l ++ t :: us)
    (ht : t.stage.outcome? = none) {stage : TaskStage} {o : Outcome}
    (ho : stage.outcome? = some o) :
    (held { r with tasks := l ++ { t with stage } :: us }).Perm (o :: r.held) := by
  have hbefore := held_split h
  have hafter := held_split (r := { r with tasks := l ++ { t with stage } :: us }) rfl
  rw [ht] at hbefore
  rw [ho] at hafter
  exact hafter.trans (hbefore.symm.cons o)

/-- The tasks are numbered, and at the end nobody is at work or to come. -/
structure Orderly (r : Run) : Prop where
  numbered : r.Numbered
  closed : r.closed = true → r.exhausted = true ∧ r.tasks = []

theorem orderly_start (campaign : String) (t : Template) (limit : Nat)
    (source : Nat → Option Recipient) : (start campaign t limit source).Orderly where
  numbered := ⟨List.nodup_nil, by simp [start]⟩
  closed h := by cases h

theorem Orderly.not_closed {r : Run} (hr : r.Orderly) {l us : List Task} {t : Task}
    (ht : r.tasks = l ++ t :: us) : ¬ r.closed = true := by
  intro hc
  rw [(hr.closed hc).2] at ht
  simp at ht

theorem Orderly.held_eq_nil {r : Run} (hr : r.Orderly) (hc : r.closed = true) : r.held = [] :=
  Run.held_eq_nil (hr.closed hc).2

theorem countP_middle {l us : List Task} {t : Task} (p : Task → Bool) :
    (l ++ t :: us).countP p = (l ++ us).countP p + (p t).toNat := by
  rw [List.countP_append, List.countP_append, List.countP_cons, Nat.add_assoc]
  cases p t <;> rfl

structure Alike (r r' : Run) : Prop where
  campaign : r'.campaign = r.campaign
  template : r'.template = r.template
  limit : r'.limit = r.limit
  source : r'.source = r.source

theorem Alike.refl (r : Run) : r.Alike r :=
  ⟨rfl, rfl, rfl, rfl⟩

theorem Alike.trans {r r' r'' : Run} (h : r.Alike r') (h' : r'.Alike r'') : r.Alike r'' :=
  ⟨h'.campaign.trans h.campaign, h'.template.trans h.template, h'.limit.trans h.limit,
    h'.source.trans h.source⟩

end Run

namespace Shift

variable {s s' : Shift} {now : Timestamp} {a : Step} {o : Option Outcome}

/-- What each step can do. A cancelled mailing takes at most one more recipient from the source,
and sends nothing to it. -/
inductive Move (s : Shift) (now : Timestamp) : Step → Option Outcome → Shift → Prop
  | turn {a : Step} {o : Option Outcome} {s' : Shift} (ha : a.Works) (h : s.Turn now o s') :
      Move s now a o s'
  | refuse {p : Recipient} (hc : s.run.cancelled = true) (he : s.run.exhausted = false)
      (hp : s.run.source s.run.taken = some p) :
      Move s now .schedule none
        { s with run := { s.run with taken := s.run.taken + 1, exhausted := true } }
  | lose {n : Nat} {l us : List Task} {t : Task} {meter : MailerMeter}
      (ht : s.run.tasks = l ++ t :: us) (hs : t.stage = .waiting) :
      Move s now (.lose n) none
        ⟨{ s.mailer with meter },
          { s.run with tasks := l ++ { t with stage := .leaving t.recipient.lost } :: us }⟩
  | cancel : Move s now .cancel none { s with run := { s.run with cancelled := true } }

theorem move_of_step (hn : s.run.Numbered) (h : s.step now a = some (o, s')) :
    s.Move now a o s' := by
  have hdoes := does_of_step hn h
  by_cases hturn : a.Works ∧ (a = .schedule → s.run.cancelled = false)
  · exact .turn hturn.1 (hdoes.turn hturn.2 hturn.1)
  · cases hdoes with
    | refuse he hroom hp hc => exact .refuse hc he hp
    | exhaust he hroom hp => exact .turn trivial (.exhaust he hp)
    | schedule he hroom hp hc => exact absurd ⟨trivial, fun _ => hc⟩ hturn
    | lose ht => exact .lose ht rfl
    | cancel => exact .cancel
    | _ => exact absurd ⟨trivial, nofun⟩ hturn

namespace Move

theorem alike (h : s.Move now a o s') : s.run.Alike s'.run := by
  cases h with
  | turn ha h => cases h <;> exact ⟨rfl, rfl, rfl, rfl⟩
  | refuse | lose | cancel => exact ⟨rfl, rfl, rfl, rfl⟩

theorem numbered (h : s.Move now a o s') (hn : s.run.Numbered) : s'.run.Numbered := by
  cases h with
  | turn ha h => exact h.numbered hn
  | refuse | cancel => exact ⟨hn.nodup, hn.lt⟩
  | lose ht =>
    obtain ⟨hnodup, hlt⟩ := hn
    rw [ht] at hnodup hlt
    exact ⟨by simpa using hnodup, by simpa using hlt⟩

theorem orderly (h : s.Move now a o s') (hs : s.run.Orderly) : s'.run.Orderly := by
  refine ⟨h.numbered hs.numbered, fun hc => ?_⟩
  cases h with
  | turn ha h =>
    cases h with
    | schedule hcancel he =>
      rw [(hs.closed hc).1] at he
      cases he
    | exhaust => exact ⟨rfl, (hs.closed hc).2⟩
    | advance ht | render writer ht | yield ht => exact absurd hc (hs.not_closed ht)
    | close he ht => exact ⟨he, ht⟩
  | refuse => exact ⟨rfl, (hs.closed hc).2⟩
  | lose ht => exact absurd hc (hs.not_closed ht)
  | cancel => exact hs.closed hc

/-- A message is entered into the tracker when it is made, and nothing else is. Outcomes that are
made are held until they are yielded. -/
theorem makes (h : s.Move now a o s') : ∃ made records,
    s'.mailer.tracker = s.mailer.tracker.recordAll s.run.campaign records ∧
    List.Forall₂ s.run.template.Renders (Outcome.messages made) (records.map (·.2.2)) ∧
    (o.toList ++ s'.run.held).Perm (made ++ s.run.held) := by
  cases h with
  | turn ha h =>
    cases h with
    | schedule =>
      refine ⟨[], [], rfl, .nil, .of_eq ?_⟩
      simp [Run.held, TaskStage.outcome?]
    | exhaust | close => exact ⟨[], [], rfl, .nil, .refl _⟩
    | advance ht ho =>
      refine ⟨[], [], rfl, .nil, .of_eq ?_⟩
      rw [Option.toList_none, List.nil_append, List.nil_append, Run.held, Run.held, ht,
        List.filterMap_append, List.filterMap_append, List.filterMap_cons, List.filterMap_cons, ho]
    | @render l us t o mailer writer ht hst hm =>
      simp only [Mailer.render, Prod.mk.injEq] at hm
      obtain ⟨rfl, rfl⟩ := hm
      have hheld (o : Outcome) :
          (Run.held { s.run with tasks := l ++ { t with stage := .rendered o } :: us }).Perm
            (o :: s.run.held) :=
        Run.held_change ht (by rw [hst]; rfl) rfl
      cases hd : s.run.template.renderRandom s.mailer.policy t.recipient.values
          (s.mailer.supply s.mailer.served) with
      | error e => exact ⟨[_], [], rfl, .nil, hheld _⟩
      | ok d =>
        obtain ⟨e | r, supply⟩ := d
        · exact ⟨[_], [], rfl, .nil, hheld _⟩
        · have hrenders := Template.renders_of_renderRandom t.recipient.id hd
          exact ⟨[.succeeded ⟨t.recipient.id, r.text, r.path⟩], [(now, writer, r.choices)], rfl,
            .cons hrenders .nil, hheld _⟩
    | yield ht hst =>
      have hheld := Run.held_split ht
      rw [hst] at hheld
      exact ⟨[], [], rfl, .nil, hheld.symm⟩
  | refuse | cancel => exact ⟨[], [], rfl, .nil, .refl _⟩
  | lose ht hst => exact ⟨[_], [], rfl, .nil, Run.held_change ht (by rw [hst]; rfl) rfl⟩

theorem enters (h : s.Move now a o s') : ∃ records,
    s'.mailer.tracker = s.mailer.tracker.recordAll s.run.campaign records ∧
    (∀ e ∈ records, s.run.template.Shows e.2.2) ∧
    s'.run.held.countP Outcome.isSuccess + o.toList.countP Outcome.isSuccess =
      s.run.held.countP Outcome.isSuccess + records.length := by
  obtain ⟨made, records, htracker, hrenders, hheld⟩ := h.makes
  refine ⟨records, htracker, ?_, ?_⟩
  · exact List.forall_mem_map.mp (Template.shows_of_renders hrenders)
  · have hcount := hheld.countP_eq Outcome.isSuccess
    have hlength := hrenders.length_eq
    rw [Outcome.length_messages, List.length_map] at hlength
    rw [List.countP_append, List.countP_append] at hcount
    omega

end Move

end Shift

end Spintax
