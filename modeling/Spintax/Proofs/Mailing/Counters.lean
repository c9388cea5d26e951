import Spintax.Proofs.Mailing.Cancelling

namespace Spintax

namespace TaskStage

def atWork : TaskStage → Bool
  | .rendering | .rendered _ => true
  | .waiting | .leaving _ | .finished _ => false

def succeeded : TaskStage → Bool
  | .finished o => o.isSuccess
  | .waiting | .rendering | .rendered _ | .leaving _ => false

def failed : TaskStage → Bool
  | .finished o => !o.isSuccess
  | .waiting | .rendering | .rendered _ | .leaving _ => false

theorem counts_le (stage : TaskStage) :
    stage.atWork.toNat + stage.succeeded.toNat + stage.failed.toNat ≤ 1 := by
  cases stage with
  | finished o => cases o <;> exact Nat.le_refl 1
  | waiting | leaving => exact Nat.zero_le 1
  | rendering | rendered => exact Nat.le_refl 1

end TaskStage

namespace Progress

def ended (p : Progress) : Nat :=
  p.succeeded + p.failed

structure Below (p p' : Progress) : Prop where
  scheduled : p.scheduled ≤ p'.scheduled
  succeeded : p.succeeded ≤ p'.succeeded
  failed : p.failed ≤ p'.failed

theorem Below.refl (p : Progress) : p.Below p :=
  ⟨Nat.le_refl _, Nat.le_refl _, Nat.le_refl _⟩

theorem Below.trans {p p' p'' : Progress} (h : p.Below p') (h' : p'.Below p'') : p.Below p'' :=
  ⟨h.scheduled.trans h'.scheduled, h.succeeded.trans h'.succeeded, h.failed.trans h'.failed⟩

@[simp]
theorem finish_scheduled (p : Progress) (b : Bool) : (p.finish b).scheduled = p.scheduled := by
  cases b <;> rfl

@[simp]
theorem finish_rendering (p : Progress) (b : Bool) : (p.finish b).rendering = p.rendering := by
  cases b <;> rfl

@[simp]
theorem finish_succeeded (p : Progress) (b : Bool) :
    (p.finish b).succeeded = p.succeeded + b.toNat := by
  cases b <;> rfl

@[simp]
theorem finish_failed (p : Progress) (b : Bool) : (p.finish b).failed = p.failed + (!b).toNat := by
  cases b <;> rfl

@[simp]
theorem ended_finish (p : Progress) (b : Bool) : (p.finish b).ended = p.ended + 1 := by
  cases b
  · rfl
  · exact Nat.add_right_comm _ _ _

end Progress

/-- How a step takes a task from one stage to another, and what it does to the counters. -/
inductive TaskStage.Passes (p : Progress) : Step → TaskStage → TaskStage → Progress → Prop
  | begin (n : Nat) : Passes p (.begin n) .waiting .rendering p.enter
  | render (n writer : Nat) (o : Outcome) : Passes p (.render n writer) .rendering (.rendered o) p
  | leave (n : Nat) (o : Outcome) : Passes p (.leave n) (.rendered o) (.leaving o) p.leave
  | finish (n : Nat) (o : Outcome) :
      Passes p (.finish n) (.leaving o) (.finished o) (p.finish o.isSuccess)
  | lose (n : Nat) (o : Outcome) : Passes p (.lose n) .waiting (.leaving o) p

namespace TaskStage.Passes

variable {p p' : Progress} {a : Step} {stage stage' : TaskStage}

theorem below (h : stage.Passes p a stage' p') : p.Below p' := by
  cases h with
  | begin | render | leave | lose => exact ⟨Nat.le_refl _, Nat.le_refl _, Nat.le_refl _⟩
  | finish => exact ⟨by simp, by simp, by simp⟩

theorem scheduled (h : stage.Passes p a stage' p') : p'.scheduled = p.scheduled := by
  cases h <;> simp [Progress.enter, Progress.leave]

theorem rendering (h : stage.Passes p a stage' p') (hp : stage.atWork.toNat ≤ p.rendering) :
    p'.rendering + stage.atWork.toNat = p.rendering + stage'.atWork.toNat := by
  cases h with
  | leave => exact Nat.sub_add_cancel hp
  | finish => simp [atWork]
  | begin | render | lose => rfl

theorem succeeded (h : stage.Passes p a stage' p') :
    p'.succeeded + stage.succeeded.toNat = p.succeeded + stage'.succeeded.toNat := by
  cases h with
  | finish => simp [TaskStage.succeeded]
  | begin | render | leave | lose => rfl

theorem failed (h : stage.Passes p a stage' p') :
    p'.failed + stage.failed.toNat = p.failed + stage'.failed.toNat := by
  cases h with
  | finish => simp [TaskStage.failed]
  | begin | render | leave | lose => rfl

theorem atWork_leave {n : Nat} (h : stage.Passes p (.leave n) stage' p') :
    stage.atWork = true ∧ stage'.atWork = false := by
  cases h
  exact ⟨rfl, rfl⟩

theorem not_finished (h : stage.Passes p a stage' p') (o : Outcome) : stage ≠ .finished o := by
  rintro rfl
  cases h

theorem ended (h : stage.Passes p a stage' p') :
    p'.ended = p.ended ∨ p'.ended = p.ended + 1 ∧ ∃ o, stage' = .finished o := by
  cases h with
  | finish n o => exact .inr ⟨p.ended_finish o.isSuccess, o, rfl⟩
  | begin | render | leave | lose => exact .inl rfl

end TaskStage.Passes

namespace Run

variable {r r' : Run} {a : Step} {o : Option Outcome} {os : List Outcome} {ns : List Nat}

/-- What each step does to the tasks and to the counters. -/
inductive Marks (r : Run) : Step → Option Outcome → Run → Prop
  | quiet {a : Step} {r' : Run} (ha : a.number? = none) (ht : r'.tasks = r.tasks)
      (hp : r'.progress = r.progress) : Marks r a none r'
  | schedule {p : Recipient} {r' : Run}
      (ht : r'.tasks = r.tasks ++ [⟨r.progress.scheduled, p, .waiting⟩])
      (hp : r'.progress = r.progress.schedule) : Marks r .schedule none r'
  | pass {a : Step} {l us : List Task} {t : Task} {stage : TaskStage} {r' : Run}
      (h : r.tasks = l ++ t :: us) (ha : a.number? = some t.number)
      (hs : t.stage.Passes r.progress a stage r'.progress)
      (ht : r'.tasks = l ++ { t with stage } :: us) : Marks r a none r'
  | yield {n : Nat} {l us : List Task} {t : Task} {o : Outcome} {r' : Run}
      (h : r.tasks = l ++ t :: us) (hs : t.stage = .finished o) (ht : r'.tasks = l ++ us)
      (hp : r'.progress = r.progress) : Marks r (.yield n) (some o) r'

/-- What is counted: each of the tasks at its stage, and those that yielded the outcomes. -/
structure Counted (r : Run) (os : List Outcome) : Prop where
  scheduled : r.progress.scheduled = os.length + r.tasks.length
  rendering : r.progress.rendering = r.tasks.countP (·.stage.atWork)
  succeeded : r.progress.succeeded =
    os.countP Outcome.isSuccess + r.tasks.countP (·.stage.succeeded)
  failed : r.progress.failed =
    os.countP (!Outcome.isSuccess ·) + r.tasks.countP (·.stage.failed)

/-- The numbers of the recipients of whom it was counted how they ended, each time that one was. -/
structure Ended (r : Run) (ns : List Nat) : Prop where
  length : ns.length = r.progress.ended
  nodup : ns.Nodup
  lt : ∀ n ∈ ns, n < r.progress.scheduled
  stage : ∀ t ∈ r.tasks, t.number ∈ ns → ∃ o, t.stage = .finished o

theorem counted_start (campaign : String) (t : Template) (limit : Nat)
    (source : Nat → Option Recipient) : (start campaign t limit source).Counted [] :=
  ⟨rfl, rfl, rfl, rfl⟩

theorem ended_start (campaign : String) (t : Template) (limit : Nat)
    (source : Nat → Option Recipient) : (start campaign t limit source).Ended [] :=
  ⟨rfl, List.nodup_nil, by simp, by simp [start]⟩

namespace Counted

theorem le_scheduled (h : r.Counted os) :
    r.progress.rendering + r.progress.succeeded + r.progress.failed ≤ r.progress.scheduled := by
  have htasks : ∀ ts : List Task, ts.countP (·.stage.atWork) + ts.countP (·.stage.succeeded) +
      ts.countP (·.stage.failed) ≤ ts.length := by
    intro ts
    induction ts with
    | nil => exact Nat.le_refl 0
    | cons t ts ih =>
      have hle := t.stage.counts_le
      have hsplit : ∀ p : Task → Bool, (t :: ts).countP p = ts.countP p + (p t).toNat :=
        countP_middle (l := [])
      rw [hsplit, hsplit, hsplit, List.length_cons]
      omega
  have htasks := htasks r.tasks
  have hos := List.length_eq_countP_add_countP Outcome.isSuccess (l := os)
  simp only [Bool.not_eq_true, Bool.decide_eq_false] at hos
  rw [h.rendering, h.succeeded, h.failed, h.scheduled]
  omega

theorem drained (h : r.Counted os) (ht : r.tasks = []) :
    r.progress.report = ⟨0, 0, os.countP Outcome.isSuccess, os.countP (!Outcome.isSuccess ·)⟩ := by
  obtain ⟨hscheduled, hrendering, hsucceeded, hfailed⟩ := h
  have hos := List.length_eq_countP_add_countP Outcome.isSuccess (l := os)
  simp only [Bool.not_eq_true, Bool.decide_eq_false] at hos
  simp only [ht, List.countP_nil, List.length_nil, Nat.add_zero] at *
  rw [Progress.report, Progress.reportOf, hscheduled, hrendering, hsucceeded, hfailed]
  congr 1
  omega

end Counted

namespace Marks

theorem below (h : r.Marks a o r') : r.progress.Below r'.progress := by
  cases h with
  | quiet _ _ hp | yield _ _ _ hp => exact hp ▸ .refl _
  | schedule _ hp => exact hp ▸ ⟨Nat.le_succ _, Nat.le_refl _, Nat.le_refl _⟩
  | pass _ _ hs => exact hs.below

theorem counted (h : r.Marks a o r') (hr : r.Counted os) : r'.Counted (os ++ o.toList) := by
  obtain ⟨hscheduled, hrendering, hsucceeded, hfailed⟩ := hr
  cases h with
  | quiet _ ht hp =>
    rw [Option.toList_none, List.append_nil]
    exact ⟨by rwa [ht, hp], by rwa [ht, hp], by rwa [ht, hp], by rwa [ht, hp]⟩
  | schedule ht hp =>
    rw [Option.toList_none, List.append_nil]
    constructor <;> rw [ht, hp]
    · simp [Progress.schedule, hscheduled, Nat.add_assoc]
    · simp [Progress.schedule, hrendering, TaskStage.atWork]
    · simp [Progress.schedule, hsucceeded, TaskStage.succeeded]
    · simp [Progress.schedule, hfailed, TaskStage.failed]
  | @pass a l us t stage _ h ha hs ht =>
    rw [h, List.length_append, List.length_cons] at hscheduled
    rw [h, countP_middle] at hrendering hsucceeded hfailed
    have hmoved (p : TaskStage → Bool) : r'.tasks.countP (p ·.stage) =
        (l ++ us).countP (p ·.stage) + (p stage).toNat := by
      rw [ht]
      exact countP_middle _
    have hrendering' := hs.rendering (hrendering ▸ Nat.le_add_left _ _)
    have hsucceeded' := hs.succeeded
    have hfailed' := hs.failed
    rw [Option.toList_none, List.append_nil]
    constructor
    · rw [hs.scheduled, ht, List.length_append, List.length_cons, hscheduled]
    · rw [hmoved TaskStage.atWork]
      omega
    · rw [hmoved TaskStage.succeeded]
      omega
    · rw [hmoved TaskStage.failed]
      omega
  | @yield n l us t o _ h hs ht hp =>
    rw [h, List.length_append, List.length_cons] at hscheduled
    rw [h, countP_middle, hs] at hrendering hsucceeded hfailed
    rw [Option.toList_some]
    constructor <;> rw [ht, hp]
    · rw [List.length_append, List.length_append, List.length_singleton]
      omega
    · exact hrendering
    · rw [List.countP_append, List.countP_singleton, hsucceeded]
      cases o with
      | succeeded m => exact Nat.add_right_comm _ _ 1
      | failed f => rfl
    · rw [List.countP_append, List.countP_singleton, hfailed]
      cases o with
      | succeeded m => rfl
      | failed f => exact Nat.add_right_comm _ _ 1

theorem rendering {n : Nat} (h : r.Marks (.leave n) o r') (hr : r.Counted os) :
    r'.progress.rendering + 1 = r.progress.rendering := by
  have hrendering := hr.rendering
  cases h with
  | quiet ha => cases ha
  | @pass _ l us t stage _ h _ hs =>
    rw [h, countP_middle] at hrendering
    have hmoved := hs.rendering (hrendering ▸ Nat.le_add_left _ _)
    obtain ⟨hbefore, hafter⟩ := hs.atWork_leave
    rwa [hbefore, hafter] at hmoved

def entry (r r' : Run) (a : Step) : List Nat :=
  if r'.progress.ended = r.progress.ended then [] else a.number?.toList

theorem others_of_pass (hn : r.Numbered) {l us : List Task} {t : Task} {stage : TaskStage}
    (h : r.tasks = l ++ t :: us) (ht : r'.tasks = l ++ { t with stage } :: us) :
    ∀ u ∈ r'.tasks, u = { t with stage } ∨ u ∈ r.tasks ∧ u.number ≠ t.number := by
  intro u hu
  have hothers := hn.others h
  rw [ht, List.mem_append, List.mem_cons] at hu
  rw [h, List.mem_append, List.mem_cons]
  obtain hu | rfl | hu := hu
  · exact .inr ⟨.inl hu, hothers u (List.mem_append_left us hu)⟩
  · exact .inl rfl
  · exact .inr ⟨.inr (.inr hu), hothers u (List.mem_append_right l hu)⟩

theorem ended (hn : r.Numbered) (h : r.Marks a o r') (hr : r.Ended ns) :
    r'.Ended (ns ++ entry r r' a) := by
  obtain ⟨hlength, hnodup, hlt, hstage⟩ := hr
  cases h with
  | quiet _ ht hp =>
    rw [entry, if_pos (by rw [hp]), List.append_nil]
    exact ⟨by rwa [hp], hnodup, by rwa [hp], by rwa [ht]⟩
  | schedule ht hp =>
    rw [entry, if_pos (by rw [hp]; rfl), List.append_nil]
    refine ⟨by rw [hp]; exact hlength, hnodup, fun n hn => ?_, fun t htask hn => ?_⟩
    · rw [hp]
      exact Nat.lt_succ_of_lt (hlt n hn)
    · rw [ht] at htask
      obtain htask | htask := List.mem_append.mp htask
      · exact hstage t htask hn
      · cases List.mem_singleton.mp htask
        exact absurd (hlt _ hn) (Nat.lt_irrefl _)
  | @pass a l us t stage _ h ha hs ht =>
    have htask : t ∈ r.tasks := by simp [h]
    have hnew : t.number ∉ ns := by
      intro hmem
      obtain ⟨o, ho⟩ := hstage t htask hmem
      exact hs.not_finished o ho
    have hmem := others_of_pass hn h ht
    rw [← hs.scheduled] at hlt
    obtain hp | ⟨hp, o, rfl⟩ := hs.ended
    · rw [entry, if_pos hp, List.append_nil]
      refine ⟨hlength.trans hp.symm, hnodup, hlt, fun u hu hended => ?_⟩
      obtain rfl | ⟨hu, -⟩ := hmem u hu
      · exact absurd hended hnew
      · exact hstage u hu hended
    · rw [entry, if_neg (by omega), ha, Option.toList_some]
      refine ⟨?_, ?_, ?_, fun u hu hended => ?_⟩
      · rw [List.length_append, hlength, hp, List.length_singleton]
      · rw [← List.concat_eq_append]
        exact hnodup.concat hnew
      · rw [List.forall_mem_append, List.forall_mem_singleton, hs.scheduled]
        exact ⟨hs.scheduled ▸ hlt, hn.lt _ (List.mem_map_of_mem htask)⟩
      · obtain rfl | ⟨hu, hne⟩ := hmem u hu
        · exact ⟨o, rfl⟩
        · obtain hended | hended := List.mem_append.mp hended
          · exact hstage u hu hended
          · exact absurd (List.mem_singleton.mp hended) hne
  | yield h hs ht hp =>
    rw [entry, if_pos (by rw [hp]), List.append_nil]
    refine ⟨by rwa [hp], hnodup, by rwa [hp], fun t htask hn => ?_⟩
    rw [ht] at htask
    refine hstage t ?_ hn
    rw [h]
    exact (List.sublist_cons_self _ _).append_left _ |>.subset htask

end Marks

end Run

namespace Shift

variable {s s' : Shift} {now : Timestamp} {a : Step} {o : Option Outcome}

theorem marks_of_step (hn : s.run.Numbered) (h : s.step now a = some (o, s')) :
    s.run.Marks a o s'.run := by
  cases does_of_step hn h with
  | schedule => exact .schedule rfl rfl
  | @begin l us n r ht => exact .pass ht rfl (.begin n) rfl
  | @render l us n r o mailer writer ht => exact .pass ht rfl (.render n writer o) rfl
  | @leave l us n r o ht => exact .pass ht rfl (.leave n o) rfl
  | @finish l us n r o ht => exact .pass ht rfl (.finish n o) rfl
  | @lose l us n r ht => exact .pass ht rfl (.lose n r.lost) rfl
  | yield ht => exact .yield ht rfl rfl rfl
  | refuse | exhaust | cancel | close | rest => exact .quiet rfl rfl rfl

def endings : List (Timestamp × Step) → Shift → List Nat
  | [], _ => []
  | (now, a) :: as, s =>
    match s.step now a with
    | none => endings as s
    | some (_, s') => Run.Marks.entry s.run s'.run a ++ endings as s'

theorem follow_counting {P : List Outcome → List Nat → Run → Prop}
    (h : ∀ {os : List Outcome} {ns : List Nat} {r r' : Run} {a : Step} {o : Option Outcome},
      r.Numbered → r.Marks a o r' → P os ns r →
        P (os ++ o.toList) (ns ++ Run.Marks.entry r r' a) r')
    (as : List (Timestamp × Step)) (os : List Outcome) (ns : List Nat) (hs : s.run.Orderly)
    (h₀ : P os ns s.run) :
    P (os ++ (follow as s).1) (ns ++ endings as s) (follow as s).2.run := by
  induction as generalizing s os ns with
  | nil =>
    rw [follow, endings, List.append_nil, List.append_nil]
    exact h₀
  | cons a as ih =>
    obtain ⟨now, a⟩ := a
    cases hstep : s.step now a with
    | none =>
      simp only [follow, endings, hstep]
      exact ih os ns hs h₀
    | some os' =>
      obtain ⟨o, s'⟩ := os'
      simp only [follow, endings, hstep]
      rw [← List.append_assoc, ← List.append_assoc]
      exact ih _ _ ((move_of_step hs.numbered hstep).orderly hs)
        (h hs.numbered (marks_of_step hs.numbered hstep) h₀)

theorem below_follow (hs : s.run.Orderly) (as : List (Timestamp × Step)) :
    s.run.progress.Below (follow as s).2.run.progress :=
  follow_counting (P := fun _ _ r => s.run.progress.Below r.progress)
    (fun _ hmarks h => h.trans hmarks.below) as [] [] hs (.refl _)

/-- The counts are read at four moments. When the recipients at work are, those that were read
before have not gone down, and that of all is read last. -/
theorem loads_le {s : Shift} (h : s.run.Orderly) (bs cs ds : List (Timestamp × Step)) :
    let s₂ := (follow bs s).2
    let s₃ := (follow cs s₂).2
    s₃.run.progress.rendering + s₃.run.progress.succeeded + s₃.run.progress.failed ≤
      s₃.run.progress.scheduled →
    s₃.run.progress.rendering + s.run.progress.succeeded + s₂.run.progress.failed ≤
      (follow ds s₃).2.run.progress.scheduled := by
  intro s₂ s₃ hle
  have h₂ : s₂.run.Orderly := orderly_follow h bs
  have h₃ : s₃.run.Orderly := orderly_follow h₂ cs
  have hsucceeded := (below_follow h bs).trans (below_follow h₂ cs)
  have hfailed := below_follow h₂ cs
  have hscheduled := below_follow h₃ ds
  calc
    _ ≤ s₃.run.progress.rendering + s₃.run.progress.succeeded + s₃.run.progress.failed :=
      Nat.add_le_add (Nat.add_le_add_left hsucceeded.succeeded _) hfailed.failed
    _ ≤ s₃.run.progress.scheduled := hle
    _ ≤ (follow ds s₃).2.run.progress.scheduled := hscheduled.scheduled

/-- At every moment of a mailing, whatever happens to it, the recipients at work, those that
succeeded and those that failed are different ones of those that were scheduled, and each gets
counted as one that ended once at most. This also holds of counts that are read at four moments,
so that the reported states add up to those that were scheduled. At the end they are the
outcomes. -/
theorem follow_progress (m : Mailer) (campaign : String) (t : Template) (limit : Nat)
    (source : Nat → Option Recipient) (as bs cs ds : List (Timestamp × Step)) :
    let s₀ : Shift := ⟨m, .start campaign t limit source⟩
    let s := (follow as s₀).2
    let p := s.run.progress
    p.rendering ≤ limit ∧ p.rendering + p.succeeded + p.failed ≤ p.scheduled ∧
    (∀ now n o s', s.step now (.leave n) = some (o, s') →
      s'.run.progress.rendering + 1 = p.rendering) ∧
    (endings as s₀).Nodup ∧ (∀ n ∈ endings as s₀, n < p.scheduled) ∧
    (endings as s₀).length = p.succeeded + p.failed ∧
    (let s₂ := (follow bs s).2
     let s₃ := (follow cs s₂).2
     let s₄ := (follow ds s₃).2
     let r := Progress.reportOf p.succeeded s₂.run.progress.failed s₃.run.progress.rendering
       s₄.run.progress.scheduled
     r.rendering ≤ limit ∧ r.rendering + r.succeeded + r.failed ≤ s₄.run.progress.scheduled ∧
       r.pending + r.rendering + r.succeeded + r.failed = s₄.run.progress.scheduled) ∧
    (s.run.closed = true → p.report = ⟨0, 0, (follow as s₀).1.countP Outcome.isSuccess,
      (follow as s₀).1.countP (!Outcome.isSuccess ·)⟩) := by
  intro s₀ s p
  have hstart : s₀.run.Orderly := Run.orderly_start campaign t limit source
  have hassign : s₀.run.Assigned [] := Run.assigned_start campaign t limit source
  have hcounted : ∀ as, (follow as s₀).2.run.Counted (follow as s₀).1 := fun as =>
    follow_counting (P := fun os _ r => r.Counted os) (fun _ hmarks h => hmarks.counted h) as [] []
      hstart (Run.counted_start campaign t limit source)
  have hended : s.run.Ended (endings as s₀) :=
    follow_counting (P := fun _ ns r => r.Ended ns) (fun hn hmarks h => hmarks.ended hn h) as [] []
      hstart (Run.ended_start campaign t limit source)
  have hlimit : ∀ as, (follow as s₀).2.run.progress.rendering ≤ limit := by
    intro as
    obtain ⟨done, hassigned, -⟩ := assigned_follow hstart hassign as
    have hroom : _ ≤ _ := hassigned.room
    rw [(alike_follow hstart as).limit] at hroom
    rw [(hcounted as).rendering]
    exact List.countP_le_length.trans hroom
  have horderly : s.run.Orderly := orderly_follow hstart as
  refine ⟨hlimit as, (hcounted as).le_scheduled, ?_, hended.nodup, hended.lt, hended.length, ?_, ?_⟩
  · intro now n o s' hstep
    exact (marks_of_step horderly.numbered hstep).rendering (hcounted as)
  · intro s₂ s₃ s₄ r
    have hs₃ : s₃ = (follow (as ++ bs ++ cs) s₀).2 := by
      rw [follow_append, follow_append]
    have hle := (hcounted (as ++ bs ++ cs)).le_scheduled
    rw [← hs₃] at hle
    have hsum : s₃.run.progress.rendering + p.succeeded + s₂.run.progress.failed ≤
        s₄.run.progress.scheduled := loads_le horderly bs cs ds hle
    refine ⟨?_, hsum, ?_⟩
    · have h := hlimit (as ++ bs ++ cs)
      rwa [← hs₃] at h
    · have hpending := Nat.sub_add_cancel hsum
      simp only [r, Progress.reportOf]
      omega
  · intro hc
    exact (hcounted as).drained (horderly.closed hc).2

/-- One recipient succeeds, one fails, the worker of one panics and that of one is never started. -/
theorem follow_progress_lost :
    let supply : Nat → Supply := fun n => if n = 2 then .ofArray #[] else .splitMix 7
    let m : Mailer := .start (.empty .standard fun _ => 0) .strict .standard supply
    let vs : Variables := .ofList [("x", "y")]
    let recipients : List Recipient := [⟨"1", vs⟩, ⟨"2", .empty⟩, ⟨"3", vs⟩, ⟨"4", vs⟩]
    let early : List (Timestamp × Step) :=
      [.schedule, .schedule, .begin 1, .begin 0, .render 0 0, .leave 0, .finish 0,
        .render 1 1].map ("0", ·)
    let late : List (Timestamp × Step) :=
      [.leave 1, .finish 1, .yield 1, .schedule, .yield 0, .schedule, .begin 2, .lose 3,
        .render 2 0, .leave 2, .finish 3, .finish 2, .yield 3, .yield 2, .schedule,
        .close].map ("1", ·)
    ∃ t, Template.parse "{a|b}{{x}}" = .ok t ∧
      let s₀ : Shift := ⟨m, .start "c" t 2 (recipients[·]?)⟩
      -- who was scheduled is read after the late steps, and the other counts before them
      (let s := (follow early s₀).2.run.progress
       let s' := (follow late (follow early s₀).2).2.run.progress
       let r := Progress.reportOf s.succeeded s.failed s.rendering s'.scheduled
       r.pending + r.rendering + r.succeeded + r.failed = 4) ∧
      (∃ o s', (follow early s₀).2.step "1" (.leave 1) = some (o, s') ∧
        s'.run.progress.rendering + 1 = (follow early s₀).2.run.progress.rendering) ∧
      (follow (early ++ late) s₀).2.run.closed = true ∧
      (follow (early ++ late) s₀).2.run.progress.report = ⟨0, 0, 1, 3⟩ := by
  intro supply m vs recipients early late
  obtain ⟨t, ht, hscheduled, ⟨o, s', hleave⟩, hclosed, hsuccesses, hfailures⟩ : ∃ t,
      Template.parse "{a|b}{{x}}" = .ok t ∧
      (follow late (follow early ⟨m, .start "c" t 2 (recipients[·]?)⟩).2).2.run.progress.scheduled
        = 4 ∧
      (∃ o s', (follow early ⟨m, .start "c" t 2 (recipients[·]?)⟩).2.step "1" (.leave 1) =
        some (o, s')) ∧
      (follow (early ++ late) ⟨m, .start "c" t 2 (recipients[·]?)⟩).2.run.closed = true ∧
      (follow (early ++ late) ⟨m, .start "c" t 2 (recipients[·]?)⟩).1.countP
        Outcome.isSuccess = 1 ∧
      (follow (early ++ late) ⟨m, .start "c" t 2 (recipients[·]?)⟩).1.countP
        (!Outcome.isSuccess ·) = 3 :=
    ⟨_, by cbv, by cbv, ⟨_, _, by cbv⟩, by cbv, by cbv, by cbv⟩
  clear_value recipients early late m
  obtain ⟨-, -, hrendering, -, -, -, ⟨-, -, htotal⟩, -⟩ :=
    follow_progress m "c" t 2 (recipients[·]?) early [] [] late
  obtain ⟨-, -, -, -, -, -, -, hreport⟩ :=
    follow_progress m "c" t 2 (recipients[·]?) (early ++ late) [] [] []
  refine ⟨t, ht, htotal.trans hscheduled, ⟨o, s', hleave, hrendering _ _ _ _ hleave⟩, hclosed, ?_⟩
  rw [hreport hclosed, hsuccesses, hfailures]

end Shift

end Spintax
