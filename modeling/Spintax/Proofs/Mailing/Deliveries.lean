import Spintax.Proofs.Mailing.Offices
import Spintax.Proofs.Mailing.Pulling
import Spintax.Proofs.Mailing.Sequence

namespace Spintax

/-- An outcome and what the sink answered. A recipient without a message is not heard of there. -/
abbrev Answered := Outcome × Except DeliveryError Unit

namespace Answered

def offered? : Answered → Option (Message × Except DeliveryError Unit)
  | (.succeeded m, r) => some (m, r)
  | (.failed _, _) => none

def failure? : Answered → Option Failure
  | (.succeeded _, .ok _) => none
  | (.succeeded m, .error e) => some ⟨m.recipient, .delivery e.message⟩
  | (.failed f, _) => some f

end Answered

namespace Summary

def ofAnswers (campaign : String) (cancelled : Bool) (es : List Answered) : Summary :=
  es.foldr (fun e s => s.push e.1 e.2) (.empty campaign cancelled)

theorem total_push (s : Summary) (o : Outcome) (r : Except DeliveryError Unit) :
    (s.push o r).total = s.total + 1 := by
  cases o with
  | failed f => simp only [push, total]; omega
  | succeeded m => cases r <;> simp only [push, total] <;> omega

theorem length_failures_push {s : Summary} (h : s.failures.length = s.failed + s.deliveryFailures)
    (o : Outcome) (r : Except DeliveryError Unit) : (s.push o r).failures.length =
      (s.push o r).failed + (s.push o r).deliveryFailures := by
  cases o with
  | failed f => simp only [push, List.length_cons]; omega
  | succeeded m => cases r <;> simp only [push, List.length_cons] <;> omega

section

variable (campaign : String) (cancelled : Bool)

theorem ofAnswers_cons (e : Answered) (es : List Answered) :
    ofAnswers campaign cancelled (e :: es) = (ofAnswers campaign cancelled es).push e.1 e.2 :=
  rfl

theorem ofAnswers_eq (es : List Answered) : ofAnswers campaign cancelled es =
    ⟨campaign, (es.filterMap Answered.offered?).countP (·.2.isOk),
      (es.map Prod.fst).countP (!·.isSuccess),
      (es.filterMap Answered.offered?).countP (!·.2.isOk), cancelled,
      es.filterMap Answered.failure?⟩ := by
  induction es with
  | nil => rfl
  | cons e es ih =>
    rw [ofAnswers_cons, ih]
    obtain ⟨m | f, e | u⟩ := e <;>
      simp [push, List.filterMap_cons, Answered.offered?, Answered.failure?, Outcome.isSuccess,
        Except.isOk, Except.toBool]

theorem length_failures_ofAnswers (es : List Answered) :
    (ofAnswers campaign cancelled es).failures.length =
      (ofAnswers campaign cancelled es).failed +
        (ofAnswers campaign cancelled es).deliveryFailures := by
  induction es with
  | nil => rfl
  | cons e es ih => exact length_failures_push ih e.1 e.2

theorem total_ofAnswers (es : List Answered) :
    (ofAnswers campaign cancelled es).total = es.length := by
  induction es with
  | nil => rfl
  | cons e es ih => rw [ofAnswers_cons, total_push, ih, List.length_cons]

theorem countP_isSuccess (es : List Answered) : (es.map Prod.fst).countP Outcome.isSuccess =
    (ofAnswers campaign cancelled es).succeeded +
      (ofAnswers campaign cancelled es).deliveryFailures := by
  induction es with
  | nil => rfl
  | cons e es ih =>
    rw [ofAnswers_cons, List.map_cons, List.countP_cons, ih]
    obtain ⟨m | f, e | u⟩ := e <;> simp [push, Outcome.isSuccess] <;> omega

end

end Summary

namespace Sink

variable {σ : Type} (sink : Sink σ)

def answers : List Outcome → σ → List Answered × σ
  | [], s => ([], s)
  | o :: os, s =>
    let (r, s) := sink.offer o s
    let (es, s) := answers os s
    ((o, r) :: es, s)

/-- The sink, and a list of what was handed over to it. -/
def logged : Sink (σ × List (Message × Except DeliveryError Unit)) where
  deliver m s :=
    let (r, state) := sink.deliver m s.1
    (r, (state, s.2 ++ [(m, r)]))

theorem map_fst_answers (os : List Outcome) (s : σ) :
    (sink.answers os s).1.map Prod.fst = os := by
  induction os generalizing s with
  | nil => rfl
  | cons o os ih => rw [answers, List.map_cons, ih]

theorem offerAll_eq (campaign : String) (cancelled : Bool) (os : List Outcome) (s : σ) :
    sink.offerAll campaign cancelled os s =
      (.ofAnswers campaign cancelled (sink.answers os s).1, (sink.answers os s).2) := by
  induction os generalizing s with
  | nil => rfl
  | cons o os ih =>
    simp only [offerAll, answers, ih]
    rfl

theorem answers_logged (os : List Outcome) (s : σ)
    (log : List (Message × Except DeliveryError Unit)) :
    sink.logged.answers os (s, log) = ((sink.answers os s).1, (sink.answers os s).2,
      log ++ (sink.answers os s).1.filterMap Answered.offered?) := by
  induction os generalizing s log with
  | nil => simp [answers]
  | cons o os ih =>
    cases o with
    | failed f =>
      simp only [answers, offer, ih]
      rfl
    | succeeded m =>
      simp only [answers, offer, logged]
      rw [← logged, ih]
      simp [Answered.offered?]

theorem offered_answers (os : List Outcome) (s : σ) :
    ((sink.answers os s).1.filterMap Answered.offered?).map Prod.fst = Outcome.messages os := by
  induction os generalizing s with
  | nil => rfl
  | cons o os ih =>
    cases o <;> simp [answers, offer, Answered.offered?, Outcome.messages, Outcome.message?] <;>
      exact ih _

end Sink

/-- A mailing whose outcomes are handed over as they are yielded, and what became of them. -/
structure Dispatch (σ : Type) where
  shift : Shift
  answered : List Answered
  state : σ

namespace Dispatch

variable {σ : Type} (sink : Sink σ)

def start (s : Shift) (state : σ) : Dispatch σ := ⟨s, [], state⟩

def hand (d : Dispatch σ) (s : Shift) : Option Outcome → Dispatch σ
  | none => { d with shift := s }
  | some o =>
    let (r, state) := sink.offer o d.state
    ⟨s, d.answered ++ [(o, r)], state⟩

def follow : List (Timestamp × Step) → Dispatch σ → Dispatch σ
  | [], d => d
  | (now, a) :: as, d =>
    match d.shift.step now a with
    | none => follow as d
    | some (o, s) => follow as (d.hand sink s o)

def summary (d : Dispatch σ) : Summary :=
  .ofAnswers d.shift.run.campaign d.shift.run.cancelled d.answered

theorem cancelled_summary (d : Dispatch σ) : d.summary.cancelled = d.shift.run.cancelled :=
  congrArg Summary.cancelled (Summary.ofAnswers_eq _ _ _)

/-- The sink has no say in the mailing. -/
theorem follow_eq (as : List (Timestamp × Step)) (d : Dispatch σ) :
    follow sink as d = ⟨(d.shift.follow as).2,
      d.answered ++ (sink.answers (d.shift.follow as).1 d.state).1,
      (sink.answers (d.shift.follow as).1 d.state).2⟩ := by
  induction as generalizing d with
  | nil => simp [follow, Shift.follow, Sink.answers]
  | cons a as ih =>
    obtain ⟨now, a⟩ := a
    rw [follow, Shift.follow]
    cases d.shift.step now a with
    | none => exact ih d
    | some os =>
      obtain ⟨o, s⟩ := os
      simp only [ih]
      cases o with
      | none => rfl
      | some o => simp [hand, Sink.answers]

theorem follow_start (as : List (Timestamp × Step)) (s : Shift) (state : σ) :
    follow sink as (start s state) = ⟨(s.follow as).2, (sink.answers (s.follow as).1 state).1,
      (sink.answers (s.follow as).1 state).2⟩ := by
  rw [follow_eq]
  simp [start]

theorem follow_logged (as : List (Timestamp × Step)) (s : Shift) (state : σ) :
    follow sink.logged as (start s (state, [])) =
      ⟨(s.follow as).2, (sink.answers (s.follow as).1 state).1,
        (sink.answers (s.follow as).1 state).2,
        (sink.answers (s.follow as).1 state).1.filterMap Answered.offered?⟩ := by
  rw [follow_start, Sink.answers_logged, List.nil_append]

end Dispatch

/-- To wait for outcomes and deliver them is to hand them over as they are yielded, by steps of
which none cancels the mailing. -/
theorem Shift.deliverTo_eq_follow_works {σ : Type} (sink : Sink σ) (s : Shift) (now : Timestamp)
    (n : Nat) (state : σ) : ∃ as : List (Timestamp × Step), (∀ a ∈ as, a.2.Works) ∧
      let d := Dispatch.follow sink as (.start s state)
      s.deliverTo now n sink state = (d.summary, d.state, d.shift) := by
  obtain ⟨as, hworks, has⟩ := pulls_eq_follow now n s
  refine ⟨as, hworks, ?_⟩
  rw [Dispatch.follow_start, has, deliverTo]
  simp only [Sink.offerAll_eq, Dispatch.summary]

theorem Shift.deliverTo_eq_follow {σ : Type} (sink : Sink σ) (s : Shift) (now : Timestamp) (n : Nat)
    (state : σ) : ∃ as,
      let d := Dispatch.follow sink as (.start s state)
      s.deliverTo now n sink state = (d.summary, d.state, d.shift) :=
  (s.deliverTo_eq_follow_works sink now n state).imp fun _ => And.right

namespace Tracker

def rendersOf (t : Tracker) (now : Timestamp) (campaign : String) : Nat :=
  ((t.snapshot now campaign).map (·.renders)).getD 0

theorem Accounts.rendersOf {t : Tracker} {rs : List Request} (h : Accounts t rs) (now : Timestamp)
    (campaign : String) : t.rendersOf now campaign = (current campaign rs).length := by
  rw [Tracker.rendersOf]
  cases hs : t.snapshot now campaign with
  | none =>
    rw [h.snapshot_eq_none.mp hs]
    rfl
  | some s => exact (h.tells_snapshot hs).2.renders

theorem ledger?_recordAll_of_ne {campaign other : String} (h : other ≠ campaign) (t : Tracker)
    (records : List (Timestamp × Nat × List Choice)) :
    (t.recordAll campaign records).ledger? other = t.ledger? other := by
  induction records generalizing t with
  | nil => rfl
  | cons e records ih =>
    have hcons : t.recordAll campaign (e :: records) =
        (t.record e.1 e.2.1 campaign e.2.2).recordAll campaign records := rfl
    rw [hcons, ih, ledger?_record, if_neg h]

theorem Accounts.rendersOf_recordAll {t : Tracker} {rs : List Request} (h : Accounts t rs)
    (campaign : String) (records : List (Timestamp × Nat × List Choice)) (now : Timestamp)
    (other : String) : (t.recordAll campaign records).rendersOf now other =
      t.rendersOf now other + if other = campaign then records.length else 0 := by
  split
  · next hc =>
    subst hc
    obtain ⟨rs', h', hcurrent⟩ := h.recordAll other records
    rw [h'.rendersOf, h.rendersOf, hcurrent, List.length_append, List.length_map]
  · next hc =>
    rw [Tracker.rendersOf, Tracker.rendersOf, snapshot, snapshot, ledger?_recordAll_of_ne hc]
    rfl

end Tracker

def Run.Thorough (r : Run) : Prop :=
  r.cancelled = false → r.taken = r.progress.scheduled ∧
    (r.exhausted = true → r.source r.taken = none)

theorem Run.thorough_start (campaign : String) (t : Template) (limit : Nat)
    (source : Nat → Option Recipient) : (start campaign t limit source).Thorough :=
  fun _ => ⟨rfl, fun he => by cases he⟩

namespace Shift

theorem Move.thorough {s s' : Shift} {now : Timestamp} {a : Step} {o : Option Outcome}
    (h : s.Move now a o s') (hs : s.run.Thorough) : s'.run.Thorough := by
  intro hc
  cases h with
  | turn ha h =>
    cases h with
    | schedule _ he =>
      refine ⟨congrArg (· + 1) (hs hc).1, fun he' => ?_⟩
      rw [he] at he'
      cases he'
    | exhaust he hp => exact ⟨(hs hc).1, fun _ => hp⟩
    | advance ht ho hr hp => exact ⟨(hs hc).1.trans hp.symm, (hs hc).2⟩
    | render | yield | close => exact hs hc
  | refuse hcancel =>
    rw [hcancel] at hc
    cases hc
  | lose => exact hs hc
  | cancel => cases hc

variable {m : Mailer} {campaign : String} {t : Template} {limit : Nat}
  {source : Nat → Option Recipient} {as : List (Timestamp × Step)}

/-- At the end the outcomes are those of the first recipients of the source, and of all of them if
nobody cancels the mailing. What comes of one recipient does not matter for another. -/
theorem recipients_closed
    (hc : (follow as ⟨m, .start campaign t limit source⟩).2.run.closed = true) :
    let s := follow as ⟨m, .start campaign t limit source⟩
    (s.1.map (·.recipient)).Perm
      ((List.range s.1.length).filterMap fun i => (source i).map (·.id)) ∧
    (s.2.run.cancelled = false → source s.1.length = none) := by
  intro s
  let s₀ : Shift := ⟨m, .start campaign t limit source⟩
  have hstart : s₀.run.Orderly := Run.orderly_start campaign t limit source
  have hstart' : s₀.run.Thorough := Run.thorough_start campaign t limit source
  obtain ⟨horderly, hthorough⟩ := follow_induction (P := fun _ s => s.run.Thorough)
    (fun _ hmove h => hmove.thorough h) as [] hstart hstart'
  obtain ⟨done, hos, heveryone, hsource, -⟩ := follow_closed m campaign t limit source as hc
  have hlen : s.2.run.progress.scheduled = s.1.length := by
    rw [← List.length_range (n := s.2.run.progress.scheduled), ← heveryone.length_eq,
      List.length_map, ← hos, List.length_map]
  constructor
  · have hrecipients : s.1.map (·.recipient) =
        (done.map Prod.fst).filterMap fun i => (source i).map (·.id) := by
      rw [← hos, List.map_map, List.filterMap_map, ← List.filterMap_eq_map]
      refine List.filterMap_congr fun d hd => ?_
      obtain ⟨p, hp, hid⟩ := hsource d hd
      simp [hp, hid]
    rw [hrecipients, ← hlen]
    exact heveryone.filterMap _
  · intro hgoing
    obtain ⟨htaken, hend⟩ := hthorough hgoing
    have hsame : (follow as s₀).2.run.source = source := (alike_follow hstart as).source
    have hend := hend (horderly.closed hc).1
    rwa [hsame, htaken, hlen] at hend

theorem rendersOf_closed {rs : List Tracker.Request} (hm : m.tracker = (Tracker.run rs .empty).2)
    (hc : (follow as ⟨m, .start campaign t limit source⟩).2.run.closed = true) (now : Timestamp)
    (other : String) :
    (follow as ⟨m, .start campaign t limit source⟩).2.mailer.tracker.rendersOf now other =
      m.tracker.rendersOf now other + if other = campaign then
        (follow as ⟨m, .start campaign t limit source⟩).1.countP Outcome.isSuccess else 0 := by
  obtain ⟨-, -, -, -, records, htracker, hlen⟩ := follow_closed m campaign t limit source as hc
  have haccounts : Tracker.Accounts m.tracker rs := by
    rw [hm]
    exact Tracker.Accounts.empty.run rs
  rw [htracker, haccounts.rendersOf_recordAll, hlen]

end Shift

/-- A mailing is delivered to any sink. The steps are any, and so are the answers of the sink. -/
theorem deliveries_add_up {σ : Type} (sink : Sink σ) (state : σ) (s : Shift) :
    (∀ as : List (Timestamp × Step),
      let run := s.follow as
      let d := Dispatch.follow sink.logged as (.start s (state, []))
      let log := d.state.2
      let summary := d.summary
      d.shift = run.2 ∧ d.answered.map Prod.fst = run.1 ∧
      Dispatch.follow sink as (.start s state) = ⟨d.shift, d.answered, d.state.1⟩ ∧
      log.map Prod.fst = Outcome.messages run.1 ∧
      summary.succeeded = log.countP (·.2.isOk) ∧
      summary.deliveryFailures = log.countP (!·.2.isOk) ∧
      summary.failed = run.1.countP (!·.isSuccess) ∧
      summary.total = run.1.length ∧
      d.answered.filterMap Answered.offered? = log ∧
      summary.failures = d.answered.filterMap Answered.failure? ∧
      summary.failures.length = summary.failed + summary.deliveryFailures ∧
      ∀ campaign t limit source, s.run = .start campaign t limit source →
        run.2.run.closed = true →
          (run.1.map (·.recipient)).Perm
            ((List.range run.1.length).filterMap fun i => (source i).map (·.id)) ∧
          (run.2.run.cancelled = false → source run.1.length = none) ∧
          ∀ rs, s.mailer.tracker = (Tracker.run rs .empty).2 →
            ∀ now other, run.2.mailer.tracker.rendersOf now other =
              s.mailer.tracker.rendersOf now other +
                if other = campaign then summary.succeeded + summary.deliveryFailures else 0) ∧
    ∀ now n, (∃ as,
      let d := Dispatch.follow sink as (.start s state)
      s.deliverTo now n sink state = (d.summary, d.state, d.shift)) ∧
      ∀ campaign t limit source k, s.run = .start campaign t limit source → 1 ≤ limit →
        (∀ i, k ≤ i → source i = none) → k < n →
          let left := (s.deliverTo now n sink state).2.2.run
          left.closed = true ∧ left.cancelled = false := by
  constructor
  · intro as run d log summary
    have hd : d = ⟨run.2, (sink.answers run.1 state).1, (sink.answers run.1 state).2,
        (sink.answers run.1 state).1.filterMap Answered.offered?⟩ :=
      Dispatch.follow_logged sink as s state
    have hshift : d.shift = run.2 := by rw [hd]
    have houtcomes : d.answered.map Prod.fst = run.1 := by
      rw [hd]
      exact sink.map_fst_answers run.1 state
    have hlog : d.answered.filterMap Answered.offered? = log := by
      simp only [log, hd]
    have hmessages : log.map Prod.fst = Outcome.messages run.1 := by
      simp only [log, hd]
      exact sink.offered_answers run.1 state
    have hsummary : summary = ⟨d.shift.run.campaign, log.countP (·.2.isOk),
        run.1.countP (!·.isSuccess), log.countP (!·.2.isOk), d.shift.run.cancelled,
        d.answered.filterMap Answered.failure?⟩ := by
      rw [← hlog, ← houtcomes]
      exact Summary.ofAnswers_eq _ _ _
    have htotal : summary.total = run.1.length := by
      rw [← houtcomes, List.length_map]
      exact Summary.total_ofAnswers _ _ _
    have hfailures := Summary.length_failures_ofAnswers d.shift.run.campaign
      d.shift.run.cancelled d.answered
    have hplain : Dispatch.follow sink as (.start s state) =
        ⟨d.shift, d.answered, d.state.1⟩ := by
      rw [hd, Dispatch.follow_start]
    have hsuccesses : run.1.countP Outcome.isSuccess =
        summary.succeeded + summary.deliveryFailures := by
      rw [← houtcomes]
      exact Summary.countP_isSuccess _ _ _
    refine ⟨hshift, houtcomes, hplain, hmessages, by rw [hsummary], by rw [hsummary],
      by rw [hsummary], htotal, hlog, by rw [hsummary], hfailures, ?_⟩
    intro campaign t limit source hs hc
    rw [← hsuccesses]
    obtain ⟨m, r⟩ := s
    cases hs
    obtain ⟨hrecipients, hend⟩ := Shift.recipients_closed hc
    exact ⟨hrecipients, hend, fun rs hm now other => Shift.rendersOf_closed hm hc now other⟩
  · intro now n
    refine ⟨s.deliverTo_eq_follow sink now n state, ?_⟩
    intro campaign t limit source k hs hlimit hk hn
    have hready : s.run.Ready k := by
      rw [hs]
      exact Run.ready_start campaign t hlimit hk
    have hcount : s.run.toCome k < n := by
      rw [hs]
      simpa [Run.toCome, Run.start] using hn
    exact Shift.pulls_closed n hready hcount

theorem deliveries_add_up_refused :
    let m : Mailer := .start (.empty .standard fun _ => 0) .strict .standard fun _ => .splitMix 7
    let recipients : List Recipient :=
      [⟨"1", .ofList [("x", "y")]⟩, ⟨"2", .empty⟩, ⟨"3", .ofList [("x", "")]⟩]
    let sink := Sink.memory.refusing fun m => if m.recipient = "3" then some "full" else none
    let as : List (Timestamp × Step) :=
      [.schedule, .schedule, .begin 1, .begin 0, .render 1 0, .render 0 1, .leave 0, .leave 1,
        .finish 1, .yield 1, .schedule, .begin 2, .cancel, .render 2 0, .leave 2, .finish 2,
        .yield 2, .finish 0, .schedule, .yield 0, .close].map ("now", ·)
    ∃ t, Template.parse "{a|b}{{x}}" = .ok t ∧
      let s : Shift := ⟨m, .start "c" t 2 (recipients[·]?)⟩
      let d := Dispatch.follow sink.logged as (.start s ([], []))
      d.shift.run.closed = true ∧
      d.state.2.map (fun e => (e.1.recipient, e.2.isOk)) = [("3", false), ("1", true)] ∧
      d.summary.succeeded = 1 ∧ d.summary.deliveryFailures = 1 ∧ d.summary.total = 3 ∧
      d.shift.mailer.tracker.rendersOf "now" "c" = 2 ∧
      (s.deliverTo "now" 4 sink []).2.2.run.closed = true := by
  intro m recipients sink as
  obtain ⟨t, ht, hclosed, hlog, hcount⟩ : ∃ t, Template.parse "{a|b}{{x}}" = .ok t ∧
      (Shift.follow as ⟨m, .start "c" t 2 (recipients[·]?)⟩).2.run.closed = true ∧
      (Dispatch.follow sink.logged as (.start ⟨m, .start "c" t 2 (recipients[·]?)⟩
        ([], []))).state.2.map (fun e => (e.1.recipient, e.2.isOk)) =
          [("3", false), ("1", true)] ∧
      (Shift.follow as ⟨m, .start "c" t 2 (recipients[·]?)⟩).1.length = 3 :=
    ⟨_, by cbv, by cbv, by cbv, by cbv⟩
  have htracker : m.tracker = (Tracker.run [] .empty).2 := rfl
  have hbefore : m.tracker.rendersOf "now" "c" = 0 := rfl
  have hends : ∀ i, 3 ≤ i → recipients[i]? = none := by simp [recipients]
  clear_value m recipients sink as
  obtain ⟨hsteps, hdeliver⟩ := deliveries_add_up sink [] ⟨m, .start "c" t 2 (recipients[·]?)⟩
  have hdrained := (hdeliver "now" 4).2 "c" t 2 (recipients[·]?) 3 rfl (by decide) hends (by decide)
  obtain ⟨hshift, -, -, -, hsucceeded, hrefused, -, htotal, -, -, -, hrenders⟩ := hsteps as
  obtain ⟨-, -, hgained⟩ := hrenders "c" t 2 (recipients[·]?) rfl hclosed
  have hgained := hgained [] htracker "now" "c"
  have haccepted := congrArg (List.countP (·.2)) hlog
  have hrejected := congrArg (List.countP (!·.2)) hlog
  rw [List.countP_map] at haccepted hrejected
  have hsucceeded : _ = 1 := hsucceeded.trans haccepted
  have hrefused : _ = 1 := hrefused.trans hrejected
  rw [hsucceeded, hrefused, hbefore] at hgained
  refine ⟨t, ht, ?_, hlog, hsucceeded, hrefused, htotal.trans hcount, ?_, hdrained.1⟩
  · rw [hshift]
    exact hclosed
  · rw [hshift]
    exact hgained

end Spintax
