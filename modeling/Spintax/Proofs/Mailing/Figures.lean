import Spintax.Proofs.Mailing.Requests
import Spintax.Proofs.Metrics.Series

namespace Spintax

namespace Outcome

def code? : Outcome → Option String
  | succeeded _ => none
  | failed f => some f.cause.code

def codes : List String :=
  ["invalid_path", "missing_variable", "worker_failed"]

def Arises (o : Outcome) : Prop :=
  ∀ code ∈ o.code?, code ∈ codes

theorem arises_ofDrawn (id : String) (drawn : Drawn (Except RenderError Rendered)) :
    (ofDrawn id drawn).Arises := by
  obtain e | ⟨e | m, s⟩ := drawn
  · simp [ofDrawn, Arises, code?, Cause.code, codes]
  · cases e <;> simp [ofDrawn, Arises, code?, Cause.code, RenderError.code, codes]
  · simp [ofDrawn, Arises, code?]

theorem arises_lost (r : Recipient) : r.lost.Arises := by
  simp [Recipient.lost, Arises, code?, Cause.code, codes]

/-- Whatever arises is a success or goes wrong in one of the ways. -/
theorem length_eq_of_arises {os : List Outcome} (h : ∀ o ∈ os, o.Arises) :
    os.length = os.countP isSuccess +
      (codes.map fun code => os.countP (·.code? = some code)).sum := by
  induction os with
  | nil => rfl
  | cons o os ih =>
    obtain ⟨ho, h⟩ := List.forall_mem_cons.mp h
    simp only [codes, List.map_cons, List.map_nil, List.sum_cons, List.sum_nil, List.countP_cons,
      List.length_cons, ih h]
    cases o with
    | succeeded m =>
      simp [isSuccess, code?]
      omega
    | failed f =>
      have hcode : f.cause.code ∈ codes := ho _ rfl
      simp only [codes, List.mem_cons, List.not_mem_nil, or_false] at hcode
      obtain hc | hc | hc := hcode <;> simp [isSuccess, code?, hc] <;> omega

end Outcome

namespace MailerMeter

/-- The second meter has counted some more outcomes than the first one. -/
structure Adds (m m' : MailerMeter) (os : List Outcome) : Prop where
  rendered : m'.rendered = m.rendered + os.countP Outcome.isSuccess
  invalidPath : m'.invalidPath = m.invalidPath + os.countP (·.code? = some "invalid_path")
  missingVariable : m'.missingVariable =
    m.missingVariable + os.countP (·.code? = some "missing_variable")
  lostWorker : m'.lostWorker = m.lostWorker + os.countP (·.code? = some "worker_failed")

variable {m m' m'' : MailerMeter} {os os' : List Outcome}

theorem Adds.refl (m : MailerMeter) : m.Adds m [] := ⟨rfl, rfl, rfl, rfl⟩

theorem Adds.trans (h : m.Adds m' os) (h' : m'.Adds m'' os') : m.Adds m'' (os ++ os') := by
  obtain ⟨h₁, h₂, h₃, h₄⟩ := h
  obtain ⟨h₁', h₂', h₃', h₄'⟩ := h'
  constructor <;> rw [List.countP_append] <;> omega

theorem Adds.perm (h : m.Adds m' os) (hp : os.Perm os') : m.Adds m' os' := by
  obtain ⟨h₁, h₂, h₃, h₄⟩ := h
  exact ⟨hp.countP_eq _ ▸ h₁, hp.countP_eq _ ▸ h₂, hp.countP_eq _ ▸ h₃, hp.countP_eq _ ▸ h₄⟩

theorem adds_count {o : Outcome} (h : o.Arises) : m.Adds (m.count o) [o] := by
  obtain s | ⟨id, e | reason | reason⟩ := o
  · constructor <;> simp [count, Outcome.isSuccess, Outcome.code?]
  · cases e <;> constructor <;>
      simp [count, Outcome.isSuccess, Outcome.code?, Cause.code, RenderError.code]
  · have hcode := h _ rfl
    simp [Cause.code, Outcome.codes] at hcode
  · constructor <;> simp [count, Outcome.isSuccess, Outcome.code?, Cause.code]

theorem started_count (m : MailerMeter) (o : Outcome) : (m.count o).started = m.started := by
  unfold count
  split <;> rfl

theorem refused_count (m : MailerMeter) (o : Outcome) : (m.count o).refused = m.refused := by
  unfold count
  split <;> rfl

theorem cancelled_count (m : MailerMeter) (o : Outcome) :
    (m.count o).cancelled = m.cancelled := by
  unfold count
  split <;> rfl

theorem sizes_count (m : MailerMeter) (o : Outcome) : (m.count o).sizes = m.sizes := by
  unfold count
  split <;> rfl

end MailerMeter

namespace Run

def told (r : Run) : List Nat :=
  if r.closed then [r.yielded] else []

end Run

namespace Shift

variable {s s' : Shift} {now : Timestamp} {a : Step} {o : Option Outcome} {made : List Outcome}

/-- What a step that yields `o` and makes the outcomes `made` does to the figures. A mailing that
comes to its end tells once how many outcomes it has yielded. -/
structure Effect (s : Shift) (o : Option Outcome) (s' : Shift) (made : List Outcome) : Prop where
  arises : ∀ o ∈ made, o.Arises
  adds : s.mailer.meter.Adds s'.mailer.meter made
  started : s'.mailer.meter.started = s.mailer.meter.started
  refused : s'.mailer.meter.refused = s.mailer.meter.refused
  tracked : s'.mailer.tracker.meter.renders =
    s.mailer.tracker.meter.renders + made.countP Outcome.isSuccess
  held : (o.toList ++ s'.run.held).Perm (made ++ s.run.held)
  yielded : s'.run.yielded = s.run.yielded + o.toList.length
  sizes : (s.run.told ++ s'.mailer.meter.sizes).Perm (s'.run.told ++ s.mailer.meter.sizes)

theorem Effect.quiet {run : Run} (hheld : run.held = s.run.held)
    (hyielded : run.yielded = s.run.yielded) (hclosed : run.closed = s.run.closed) :
    s.Effect none { s with run } [] where
  arises := by simp
  adds := .refl _
  started := rfl
  refused := rfl
  tracked := rfl
  held := .of_eq hheld
  yielded := hyielded
  sizes := by rw [Run.told, Run.told, hclosed, hyielded]

theorem Effect.make {mailer : Mailer} {run : Run} {o : Outcome} (ho : o.Arises)
    (hmeter : mailer.meter = s.mailer.meter.count o)
    (htracked : mailer.tracker.meter.renders =
      s.mailer.tracker.meter.renders + [o].countP Outcome.isSuccess)
    (hheld : run.held.Perm (o :: s.run.held)) (hyielded : run.yielded = s.run.yielded)
    (hclosed : run.closed = s.run.closed) : s.Effect none ⟨mailer, run⟩ [o] where
  arises := List.forall_mem_singleton.mpr ho
  adds := hmeter ▸ MailerMeter.adds_count ho
  started := hmeter ▸ MailerMeter.started_count _ o
  refused := hmeter ▸ MailerMeter.refused_count _ o
  tracked := htracked
  held := hheld
  yielded := hyielded
  sizes := by rw [Run.told, Run.told, hclosed, hyielded, hmeter, MailerMeter.sizes_count]

theorem tracked_record (m : Mailer) (now : Timestamp) (writer : Nat) (campaign id : String)
    (drawn : Drawn (Except RenderError Rendered)) :
    (m.record now writer campaign drawn).meter.renders =
      m.tracker.meter.renders + [Outcome.ofDrawn id drawn].countP Outcome.isSuccess := by
  obtain e | ⟨e | r, supply⟩ := drawn
  · rfl
  · rfl
  · change (m.tracker.record now writer campaign r.choices).meter.renders = _
    rw [Tracker.record]
    split <;> rfl

theorem effect_of_step (hs : s.run.Orderly) (h : s.step now a = some (o, s')) :
    ∃ made, s.Effect o s' made := by
  cases does_of_step hs.numbered h with
  | schedule =>
    refine ⟨[], .quiet ?_ rfl rfl⟩
    simp [Run.held, TaskStage.outcome?]
  | begin ht | leave ht | finish ht =>
    refine ⟨[], .quiet ?_ rfl rfl⟩
    simp [Run.held, ht, TaskStage.outcome?]
  | render writer ht hm =>
    simp only [Mailer.render, Prod.mk.injEq] at hm
    obtain ⟨rfl, rfl⟩ := hm
    exact ⟨_, .make (Outcome.arises_ofDrawn _ _) rfl (tracked_record ..)
      (Run.held_change ht rfl rfl) rfl rfl⟩
  | @lose l us n r ht =>
    exact ⟨_, .make (Outcome.arises_lost r) rfl rfl (Run.held_change ht rfl rfl) rfl rfl⟩
  | yield ht =>
    have hopen : ¬ s.run.closed = true := hs.not_closed ht
    exact ⟨[], by simp, .refl _, rfl, rfl, rfl, (Run.held_split ht).symm, rfl,
      by simp [Run.told, hopen]⟩
  | close he ht hc =>
    refine ⟨[], by simp, ⟨rfl, rfl, rfl, rfl⟩, rfl, rfl, rfl, .refl _, rfl, ?_⟩
    rw [Run.told, Run.told, hc]
    exact .refl _
  | refuse | exhaust | cancel | rest => exact ⟨[], .quiet rfl rfl rfl⟩

end Shift

namespace Office

/-- What happens at an office: somebody asks for a mailing, or one of the mailings is to take a
step. -/
inductive Event where
  | process (now : Nat) (campaign text : String) (request : Option Nat)
    (source : Nat → Option Recipient)
  | work (now : Timestamp) (i : Nat) (a : Step)

/-- What comes of it. The mailings are numbered from the first one that began. -/
inductive Answer where
  | processed (r : Except Refusal Unit)
  | yielded (i : Nat) (o : Outcome)

def Event.isRequest : Event → Bool
  | process .. => true
  | work .. => false

namespace Answer

def begins : Answer → Bool
  | processed (.ok ()) => true
  | processed (.error _) | yielded .. => false

def refuses : Answer → Bool
  | processed (.error _) => true
  | processed (.ok ()) | yielded .. => false

def isFrom (i : Nat) : Answer → Bool
  | yielded j _ => j = i
  | processed _ => false

def outcome? : Answer → Option Outcome
  | yielded _ o => some o
  | processed _ => none

def ofStep (i : Nat) (o : Option Outcome) : List Answer :=
  o.toList.map (.yielded i)

variable {log : List Answer} {i : Nat} {o : Option Outcome}

theorem outcomes_ofStep :
    (log ++ ofStep i o).filterMap (·.outcome?) = log.filterMap (·.outcome?) ++ o.toList := by
  cases o <;> simp [ofStep, outcome?]

theorem countP_ofStep {p : Answer → Bool} (h : ∀ o, p (.yielded i o) = false) :
    (log ++ ofStep i o).countP p = log.countP p := by
  cases o <;> simp [ofStep, h]

theorem countP_isFrom_ofStep (j : Nat) : (log ++ ofStep i o).countP (·.isFrom j) =
    log.countP (·.isFrom j) + if j = i then o.toList.length else 0 := by
  by_cases hj : j = i <;> cases o <;> simp [ofStep, isFrom, hj, eq_comm]

end Answer

def after (f : Office) : Event → List Answer × Office
  | .process now campaign text request source =>
    let (r, f) := f.process now campaign text request source
    ([.processed r], f)
  | .work now i a =>
    match f.step now i a with
    | some (o, f) => (Answer.ofStep i o, f)
    | none => ([], f)

def serve : List Event → Office → List Answer × Office
  | [], f => ([], f)
  | e :: es, f =>
    let (as, f) := f.after e
    let (bs, f) := serve es f
    (as ++ bs, f)

def meters (f : Office) : Meters :=
  ⟨f.mailer.cache.meter, f.mailer.tracker.meter, f.mailer.meter⟩

def known (f : Office) (log : List Answer) : List Outcome :=
  log.filterMap (·.outcome?) ++ f.runs.flatMap Run.held

/-- The figures of an office that began without mailings and with the mailer `m`. Since then it
has given the answers in the log. -/
structure Sums (m : Mailer) (f : Office) (log : List Answer) : Prop where
  orderly : ∀ r ∈ f.runs, r.Orderly
  arises : ∀ o ∈ f.known log, o.Arises
  adds : m.meter.Adds f.mailer.meter (f.known log)
  tracked : f.mailer.tracker.meter.renders =
    m.tracker.meter.renders + (f.known log).countP Outcome.isSuccess
  started : f.mailer.meter.started = m.meter.started + f.runs.length
  begun : f.runs.length = log.countP (·.begins)
  refused : f.mailer.meter.refused = m.meter.refused + log.countP (·.refuses)
  yielded : ∀ i, (f.runs[i]?.map Run.yielded).getD 0 = log.countP (·.isFrom i)
  total : (f.runs.map Run.yielded).sum = (log.filterMap (·.outcome?)).length
  sizes : f.mailer.meter.sizes.Perm (f.runs.flatMap Run.told ++ m.meter.sizes)

variable {m : Mailer} {f f' : Office} {log as : List Answer} {e : Event}

theorem sums_start (m : Mailer) : Sums m ⟨m, []⟩ [] where
  orderly := by simp
  arises := by simp [known]
  adds := .refl _
  tracked := rfl
  started := rfl
  begun := rfl
  refused := rfl
  yielded := by simp
  total := rfl
  sizes := .refl _

theorem Sums.refuse (h : Sums m f log) (r : Refusal) (cache : Cache) :
    Sums m (f.refusing cache) (log ++ [.processed (.error r)]) := by
  obtain ⟨horderly, harises, hadds, htracked, hstarted, hbegun, hrefused, hyielded, htotal,
    hsizes⟩ := h
  have hlog : (log ++ [Answer.processed (.error r)]).filterMap (·.outcome?) =
      log.filterMap (·.outcome?) := by simp [Answer.outcome?]
  have hknown : (f.refusing cache).known (log ++ [.processed (.error r)]) = f.known log := by
    rw [known, hlog, known, refusing]
  refine ⟨horderly, hknown ▸ harises, hknown ▸ { hadds with }, hknown ▸ htracked, hstarted,
    ?_, ?_, fun i => ?_, ?_, hsizes⟩
  · rw [List.countP_append]
    exact hbegun
  · rw [List.countP_append, ← Nat.add_assoc, ← hrefused]
    rfl
  · rw [List.countP_append]
    exact hyielded i
  · rw [hlog]
    exact htotal

theorem Sums.begin (h : Sums m f log) (campaign : String) (t : Template) (limit : Nat)
    (source : Nat → Option Recipient) (cache : Cache) :
    Sums m ⟨{ f.mailer with
        cache
        meter := { f.mailer.meter with started := f.mailer.meter.started + 1 } },
        f.runs ++ [.start campaign t limit source]⟩ (log ++ [.processed (.ok ())]) := by
  obtain ⟨horderly, harises, hadds, htracked, hstarted, hbegun, hrefused, hyielded, htotal,
    hsizes⟩ := h
  have hlog : (log ++ [Answer.processed (.ok ())]).filterMap (·.outcome?) =
      log.filterMap (·.outcome?) := by simp [Answer.outcome?]
  have hheld : (f.runs ++ [Run.start campaign t limit source]).flatMap Run.held =
      f.runs.flatMap Run.held := by
    rw [List.flatMap_append, List.flatMap_singleton, Run.held_eq_nil rfl, List.append_nil]
  have htold : (f.runs ++ [Run.start campaign t limit source]).flatMap Run.told =
      f.runs.flatMap Run.told := by
    rw [List.flatMap_append]
    exact List.append_nil _
  have hknown : ∀ mailer,
      (Office.mk mailer (f.runs ++ [.start campaign t limit source])).known
        (log ++ [.processed (.ok ())]) = f.known log := by
    intro mailer
    rw [known, hlog, hheld, known]
  refine ⟨?_, ?_, ?_, ?_, ?_, ?_, ?_, fun i => ?_, ?_, ?_⟩
  · rw [List.forall_mem_append, List.forall_mem_singleton]
    exact ⟨horderly, Run.orderly_start campaign t limit source⟩
  · rw [hknown]
    exact harises
  · rw [hknown]
    exact { hadds with }
  · rw [hknown]
    exact htracked
  · rw [List.length_append, ← Nat.add_assoc, ← hstarted]
    rfl
  · rw [List.length_append, List.countP_append, hbegun]
    rfl
  · rw [List.countP_append]
    exact hrefused
  · rw [List.countP_append, ← hyielded i]
    rcases Nat.lt_trichotomy i f.runs.length with hi | rfl | hi
    · rw [List.getElem?_append_left hi]
      rfl
    · simp [Run.start, Answer.isFrom]
    · rw [List.getElem?_eq_none (by simpa using hi), List.getElem?_eq_none (Nat.le_of_lt hi)]
      rfl
  · rw [hlog, ← htotal, List.map_append, List.sum_append]
    rfl
  · rw [htold]
    exact hsizes

theorem Sums.process {now : Nat} {campaign text : String} {request : Option Nat}
    {source : Nat → Option Recipient} {r : Except Refusal Unit} (h : Sums m f log)
    (hp : f.process now campaign text request source = (r, f')) :
    Sums m f' (log ++ [.processed r]) := by
  obtain ⟨r, cache, heq⟩ | ⟨t, limit, cache, heq⟩ :=
    f.process_cases now campaign text request source
  · cases heq.symm.trans hp
    exact h.refuse r cache
  · cases heq.symm.trans hp
    exact h.begin campaign t limit source cache

theorem Sums.work {now : Timestamp} {i : Nat} {a : Step} {o : Option Outcome} (h : Sums m f log)
    (hf : f.step now i a = some (o, f')) : Sums m f' (log ++ Answer.ofStep i o) := by
  obtain ⟨horderly, harises, hadds, htracked, hstarted, hbegun, hrefused, hyielded, htotal,
    hsizes⟩ := h
  obtain ⟨l, r, us, s, hruns, hi, hs, rfl⟩ := step_eq_some hf
  rw [hruns, List.forall_mem_append, List.forall_mem_cons] at horderly
  obtain ⟨hl, hr, hus⟩ := horderly
  obtain ⟨made, heffect⟩ := Shift.effect_of_step hr hs
  have hget : f.runs[i]? = some r := by
    rw [hruns, ← hi, List.getElem?_append_right (Nat.le_refl _), Nat.sub_self,
      List.getElem?_cons_zero]
  have hset : l ++ s.run :: us = f.runs.set i s.run := by
    rw [hruns, ← hi, List.set_append_right _ _ (Nat.le_refl _), Nat.sub_self, List.set_cons_zero]
  have hknown : ((Office.mk s.mailer (l ++ s.run :: us)).known (log ++ Answer.ofStep i o)).Perm
      (f.known log ++ made) := by
    rw [known, known, Answer.outcomes_ofStep, hruns]
    refine List.perm_iff_count.mpr fun d => ?_
    have hheld := heffect.held.count_eq d
    simp only [List.count_append, List.flatMap_append, List.flatMap_cons] at hheld ⊢
    omega
  refine ⟨?_, ?_, ?_, ?_, ?_, ?_, ?_, ?_, ?_, ?_⟩
  · rw [List.forall_mem_append, List.forall_mem_cons]
    exact ⟨hl, (Shift.move_of_step hr.numbered hs).orderly hr, hus⟩
  · intro o ho
    obtain ho | ho := List.mem_append.mp (hknown.subset ho)
    · exact harises o ho
    · exact heffect.arises o ho
  · exact (hadds.trans heffect.adds).perm hknown.symm
  · rw [hknown.countP_eq, List.countP_append, ← Nat.add_assoc, ← htracked]
    exact heffect.tracked
  · rw [hset, List.length_set, ← hstarted]
    exact heffect.started
  · rw [Answer.countP_ofStep fun _ => rfl, hset, List.length_set, hbegun]
  · rw [Answer.countP_ofStep fun _ => rfl, ← hrefused]
    exact heffect.refused
  · intro j
    rw [Answer.countP_isFrom_ofStep, ← hyielded j, hset]
    by_cases hj : j = i
    · subst hj
      rw [hget, List.getElem?_set_self' , hget, if_pos rfl]
      exact heffect.yielded
    · rw [List.getElem?_set_ne (Ne.symm hj), if_neg hj, Nat.add_zero]
  · rw [Answer.outcomes_ofStep, List.length_append, ← htotal, hruns]
    simp only [List.map_append, List.map_cons, List.sum_append, List.sum_cons, heffect.yielded]
    omega
  · rw [hruns] at hsizes
    refine List.perm_iff_count.mpr fun n => ?_
    have hbefore := hsizes.count_eq n
    have htold := heffect.sizes.count_eq n
    simp only [List.count_append, List.flatMap_append, List.flatMap_cons] at hbefore htold ⊢
    omega

theorem Sums.after (h : Sums m f log) (e : Event) :
    Sums m (f.after e).2 (log ++ (f.after e).1) := by
  cases e with
  | process now campaign text request source => exact h.process rfl
  | work now i a =>
    rw [Office.after]
    cases hf : f.step now i a with
    | none =>
      rw [List.append_nil]
      exact h
    | some of => exact h.work hf

theorem Sums.serve (h : Sums m f log) (es : List Event) :
    Sums m (serve es f).2 (log ++ (serve es f).1) := by
  induction es generalizing f log with
  | nil =>
    rw [Office.serve, List.append_nil]
    exact h
  | cons e es ih =>
    rw [Office.serve, ← List.append_assoc]
    exact ih (h.after e)

theorem answers_after (f : Office) (e : Event) :
    (f.after e).1.countP (·.begins) + (f.after e).1.countP (·.refuses) = e.isRequest.toNat := by
  cases e with
  | process now campaign text request source =>
    rw [Office.after]
    obtain ⟨r, f'⟩ := f.process now campaign text request source
    cases r <;> rfl
  | work now i a =>
    rw [Office.after]
    cases f.step now i a with
    | none => rfl
    | some of =>
      obtain ⟨o, f'⟩ := of
      cases o <;> rfl

theorem answers_serve (es : List Event) (f : Office) :
    (serve es f).1.countP (·.begins) + (serve es f).1.countP (·.refuses) =
      es.countP (·.isRequest) := by
  induction es generalizing f with
  | nil => rfl
  | cons e es ih =>
    have hafter := f.answers_after e
    have hes := ih (f.after e).2
    have hone : (if e.isRequest = true then 1 else 0) = e.isRequest.toNat := by
      cases e.isRequest <;> rfl
    rw [Office.serve, List.countP_append, List.countP_append, List.countP_cons, hone]
    omega

/-- At the end all outcomes are yielded, and the sizes of all mailings are told. -/
theorem Sums.closed (h : Sums m f log) (hc : ∀ r ∈ f.runs, r.closed = true) :
    f.known log = log.filterMap (·.outcome?) ∧
      f.runs.flatMap Run.told = f.runs.map Run.yielded := by
  have hheld : f.runs.flatMap Run.held = [] :=
    List.flatMap_eq_nil_iff.mpr fun r hr => (h.orderly r hr).held_eq_nil (hc r hr)
  constructor
  · rw [known, hheld, List.append_nil]
  · rw [List.map_eq_flatMap]
    exact List.flatMap_congr fun r hr => if_pos (hc r hr)

/-- Mailings are asked for and worked at, in any order, and some of them may be cancelled. In the
end all of them have come to their end, perhaps more than once. -/
theorem figures_add_up (m : Mailer) (es : List Event) :
    let log := (serve es ⟨m, []⟩).1
    let f := (serve es ⟨m, []⟩).2
    let rises := (Office.mk m []).meters.Rises f.meters
    let os := log.filterMap (·.outcome?)
    let sizes := f.runs.map Run.yielded
    f.runs.length = log.countP (·.begins) ∧
    log.countP (·.begins) + log.countP (·.refuses) = es.countP (·.isRequest) ∧
    rises "ara_variation_bulk_runs_total" f.runs.length ∧
    rises "ara_variation_bulk_runs_rejected_total" (log.countP (·.refuses)) ∧
    (∀ i r, f.runs[i]? = some r → r.yielded = log.countP (·.isFrom i)) ∧
    ((∀ r ∈ f.runs, r.closed = true) →
      os.length = os.countP Outcome.isSuccess +
        (Outcome.codes.map fun code => os.countP (·.code? = some code)).sum ∧
      rises "ara_variation_renders_total\x7boutcome=\"success\"\x7d" (os.countP Outcome.isSuccess) ∧
      (∀ code ∈ Outcome.codes,
        rises ("ara_variation_renders_total" ++ Metrics.labelled "outcome" code)
          (os.countP (·.code? = some code))) ∧
      rises "ara_variation_tracked_renders_total" (os.countP Outcome.isSuccess) ∧
      rises "ara_variation_render_latency_seconds_count" (os.countP Outcome.isSuccess) ∧
      f.mailer.meter.sizes.Perm (sizes ++ m.meter.sizes) ∧
      rises "ara_variation_bulk_run_size_count" f.runs.length ∧
      rises "ara_variation_bulk_run_size_sum" os.length ∧
      ∀ bound ∈ [1, 10, 100, 1000, 10000, 100000, 1000000],
        rises ("ara_variation_bulk_run_size" ++ Metrics.bucketEnding (toString bound))
          (sizes.countP (· ≤ bound))) := by
  intro log f rises os sizes
  have h : Sums m f log := (sums_start m).serve es
  have hanswers : log.countP (·.begins) + log.countP (·.refuses) = es.countP (·.isRequest) :=
    answers_serve es ⟨m, []⟩
  clear_value log f
  refine ⟨h.begun, hanswers, ⟨m.meter.started, rfl, congrArg some h.started⟩,
    ⟨m.meter.refused, rfl, congrArg some h.refused⟩, ?_, fun hc => ?_⟩
  · intro i r hr
    rw [← h.yielded i, hr]
    rfl
  · obtain ⟨hknown, htold⟩ := h.closed hc
    have hadds := h.adds
    have harises := h.arises
    have htracked := h.tracked
    have hsizes := h.sizes
    rw [hknown] at hadds harises htracked
    rw [htold] at hsizes
    have hlength : sizes.length = f.runs.length := List.length_map _
    refine ⟨Outcome.length_eq_of_arises harises,
      ⟨m.meter.rendered, rfl, congrArg some hadds.rendered⟩, ?_,
      ⟨m.tracker.meter.renders, rfl, congrArg some htracked⟩,
      ⟨m.meter.rendered, rfl, congrArg some hadds.rendered⟩, hsizes,
      ⟨m.meter.sizes.length, rfl, ?_⟩, ⟨m.meter.sizes.sum, rfl, ?_⟩, ?_⟩
    · intro code hcode
      simp only [Outcome.codes, List.mem_cons, List.not_mem_nil, or_false] at hcode
      obtain rfl | rfl | rfl := hcode
      · exact ⟨m.meter.invalidPath, rfl, congrArg some hadds.invalidPath⟩
      · exact ⟨m.meter.missingVariable, rfl, congrArg some hadds.missingVariable⟩
      · exact ⟨m.meter.lostWorker, rfl, congrArg some hadds.lostWorker⟩
    · rw [← hlength, Nat.add_comm, ← List.length_append, ← hsizes.length_eq]
      rfl
    · rw [← h.total, Nat.add_comm, ← List.sum_append, ← hsizes.sum_eq]
      rfl
    · have hupTo : ∀ bound, (f.mailer.meter.sizes.filter (· ≤ bound)).length =
          (m.meter.sizes.filter (· ≤ bound)).length + sizes.countP (· ≤ bound) := by
        intro bound
        rw [← List.countP_eq_length_filter, ← List.countP_eq_length_filter, hsizes.countP_eq,
          List.countP_append, Nat.add_comm]
      intro bound hbound
      simp only [List.mem_cons, List.not_mem_nil, or_false] at hbound
      obtain rfl | rfl | rfl | rfl | rfl | rfl | rfl := hbound <;>
        exact ⟨_, rfl, congrArg some (hupTo _)⟩

theorem figures_add_up_two :
    let m := Mailer.start (.empty .standard fun _ => 0) .strict .standard
      fun n => .splitMix (.ofNat n)
    let recipients : List Recipient := [⟨"1", .ofList [("x", "y")]⟩, ⟨"2", .empty⟩]
    let source : Nat → Option Recipient := (recipients[·]?)
    let es : List Event :=
      [.process 0 "c" "{{x}}" (some 1) source, .process 0 "c" "{}" none source,
        .process 0 "c" "{{x}}" (some 0) source, .process 0 "d" "{{x}}" none source] ++
      ([(0, .schedule), (0, .begin 0), (1, .schedule), (0, .render 0 0), (1, .lose 0),
        (0, .leave 0), (0, .finish 0), (0, .yield 0), (1, .finish 0), (1, .cancel), (1, .schedule),
        (1, .yield 0), (1, .close), (0, .schedule), (0, .begin 1), (0, .render 1 3), (0, .leave 1),
        (0, .finish 1), (0, .yield 1), (0, .schedule), (0, .close), (1, .close), (0, .close)].map
          fun a => .work "1" a.1 a.2)
    let f := (serve es ⟨m, []⟩).2
    let rises := (Office.mk m []).meters.Rises f.meters
    (∀ r ∈ f.runs, r.closed = true) ∧ rises "ara_variation_bulk_runs_total" 2 ∧
      rises "ara_variation_bulk_runs_rejected_total" 2 ∧
      rises "ara_variation_renders_total\x7boutcome=\"success\"\x7d" 1 ∧
      rises "ara_variation_renders_total\x7boutcome=\"worker_failed\"\x7d" 1 ∧
      f.mailer.meter.sizes.Perm [2, 1] ∧ rises "ara_variation_bulk_run_size_sum" 3 := by
  intro m recipients source es
  obtain ⟨hclosed, hsizes, hrefused, hsuccess, hlost, hlength⟩ :
      (serve es ⟨m, []⟩).2.runs.map Run.closed = [true, true] ∧
      (serve es ⟨m, []⟩).2.runs.map Run.yielded = [2, 1] ∧
      (serve es ⟨m, []⟩).1.countP (·.refuses) = 2 ∧
      ((serve es ⟨m, []⟩).1.filterMap (·.outcome?)).countP Outcome.isSuccess = 1 ∧
      ((serve es ⟨m, []⟩).1.filterMap (·.outcome?)).countP (·.code? = some "worker_failed") = 1 ∧
      ((serve es ⟨m, []⟩).1.filterMap (·.outcome?)).length = 3 :=
    ⟨by cbv, by cbv, by cbv, by cbv, by cbv, by cbv⟩
  have hm : m.meter.sizes = [] := rfl
  clear_value es m
  intro f rises
  have hruns : f.runs.length = 2 := by
    rw [← List.length_map (f := Run.closed), hclosed]
    rfl
  have hall : ∀ r ∈ f.runs, r.closed = true := by
    intro r hr
    have hmem := List.mem_map_of_mem (f := Run.closed) hr
    rw [hclosed] at hmem
    simpa using hmem
  obtain ⟨-, -, hstarted, hrejected, -, hend⟩ := figures_add_up m es
  obtain ⟨-, hrendered, hfailed, -, -, hperm, -, hsum, -⟩ := hend hall
  have hworker := hfailed "worker_failed" (by decide)
  rw [hruns] at hstarted
  rw [hrefused] at hrejected
  rw [hsuccess] at hrendered
  rw [hlost] at hworker
  rw [hsizes, hm] at hperm
  rw [hlength] at hsum
  exact ⟨hall, hstarted, hrejected, hrendered, hworker, hperm, hsum⟩

end Office

end Spintax
