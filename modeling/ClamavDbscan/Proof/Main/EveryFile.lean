import ClamavDbscan.Construction.Scanner.Database
import ClamavDbscan.Proof.Main.Accounting
import Mathlib.Data.List.Forall2

/-
This file decides when every queued path gets its record.
-/

namespace ClamavDbscan.ScanLoop

variable {config : ScanConfig} {paths : List Str} {loop : ScanLoop}

/-- Fewer entries satisfy a stronger test that one of them fails. -/
theorem countP_lt {α : Type} {weak strong : α → Bool} {list : List α}
    (implies : ∀ entry ∈ list, strong entry = true → weak entry = true) {entry : α}
    (member : entry ∈ list) (passes : weak entry = true) (fails : strong entry = false) :
    list.countP strong < list.countP weak := by
  obtain ⟨before, after, rfl⟩ := List.append_of_mem member
  have left : before.countP strong ≤ before.countP weak :=
    List.countP_mono_left fun other inside => implies other (List.mem_append_left _ inside)
  have right : after.countP strong ≤ after.countP weak :=
    List.countP_mono_left fun other inside =>
      implies other (List.mem_append_right _ (List.mem_cons_of_mem _ inside))
  simp only [List.countP_append, List.countP_cons, passes, fails, if_true, Bool.false_eq_true,
    if_false]
  omega

/-- Each entry of the wait is a scan with its outcome. -/
def Ended (config : ScanConfig) (paths : List Str) (loop : ScanLoop) (completed : List (TaskName × ℚ)) : Prop :=
  ∀ entry ∈ completed, ∃ number, entry.1 = .scan number ∧
    (loop.scans[number]?).bind ScanTask.outcome = some (outcomeAt config paths number)

/-- The scan of this task has ended with an outcome. -/
def endedWith (scans : List ScanTask) : TaskName → Option Outcome
  | .scan number => (scans[number]?).bind ScanTask.outcome
  | .ready _ => none

/-- No exception is reported when the clock reads the time of the last output. -/
def OutputsApart (scans : List ScanTask) : Option ℚ → List (TaskName × ℚ) → Prop
  | _, [] => True
  | last, (task, now) :: others =>
      match endedWith scans task with
      | none => OutputsApart scans last others
      | some outcome => (forces outcome = true → last ≠ some now) ∧
          OutputsApart scans (Logger.nextOutput last (forces outcome) now) others

instance (scans : List ScanTask) : (last : Option ℚ) → (completed : List (TaskName × ℚ)) →
    Decidable (OutputsApart scans last completed)
  | _, [] => isTrue trivial
  | last, (task, now) :: others =>
      match ended : endedWith scans task with
      | none =>
          have := instDecidableOutputsApart scans last others
          decidable_of_iff (OutputsApart scans last others) (by simp [OutputsApart, ended])
      | some outcome =>
          have := instDecidableOutputsApart scans (Logger.nextOutput last (forces outcome) now) others
          decidable_of_iff ((forces outcome = true → last ≠ some now) ∧
            OutputsApart scans (Logger.nextOutput last (forces outcome) now) others)
            (by simp [OutputsApart, ended])

/-- The clock has moved on since the last output whenever an exception is reported. -/
def ClockAdvances (loop : ScanLoop) : Label → Prop
  | .resume completed => OutputsApart loop.scans loop.logger.lastOutput completed
  | _ => True

instance (loop : ScanLoop) : (label : Label) → Decidable (ClockAdvances loop label)
  | .resume completed => inferInstanceAs (Decidable (OutputsApart loop.scans loop.logger.lastOutput completed))
  | .finishScan _ | .stepReady _ | .put _ => isTrue trivial

theorem reportOne_scan {number : Nat} {outcome : Outcome} (now : ℚ)
    (ended : (loop.scans[number]?).bind ScanTask.outcome = some outcome) :
    loop.reportOne (.scan number) now =
      (reportOutcome loop.logger outcome now).map fun (logger, record) =>
        { loop with logger := logger, written := loop.written ++ [record] } := by
  simp only [reportOne, ended]

/-- The loop over the completed tasks appends one record for each of them if all are handled and the clock moves
on, and it raises otherwise. -/
theorem reportAll_cases (completed : List (TaskName × ℚ)) (ended : Ended config paths loop completed) :
    (((∀ entry ∈ completed, ∀ outcome, endedWith loop.scans entry.1 = some outcome → Handled outcome) ∧
        OutputsApart loop.scans loop.logger.lastOutput completed) ∧
      ∃ logger records, reportAll completed loop =
          { loop with logger := logger, written := loop.written ++ records } ∧
        records.map some = completed.map fun entry => outcomeOf config paths entry.1) ∨
      ¬ ((∀ entry ∈ completed, ∀ outcome, endedWith loop.scans entry.1 = some outcome → Handled outcome) ∧
        OutputsApart loop.scans loop.logger.lastOutput completed) ∧
      ∃ logger written raised, reportAll completed loop =
        { loop with logger := logger, written := written, control := .raised raised } := by
  induction completed generalizing loop with
  | nil => exact .inl ⟨⟨by simp, trivial⟩, loop.logger, [], by simp [reportAll], rfl⟩
  | cons entry others ih =>
      obtain ⟨task, now⟩ := entry
      obtain ⟨number, rfl, done⟩ := ended _ List.mem_cons_self
      have named : endedWith loop.scans (.scan number) = some (outcomeAt config paths number) := done
      rw [reportAll, reportOne_scan now done]
      simp only [List.forall_mem_cons, OutputsApart, named]
      rcases reportOutcome_cases loop.logger (outcomeAt config paths number) now with
        ⟨⟨handled, apart⟩, logged, record, reported, output⟩ | ⟨fails, raised, reported⟩
      · have later : Ended config paths
            { loop with logger := logged, written := loop.written ++ [record] } others :=
          fun entry member => ended entry (List.mem_cons_of_mem _ member)
        rw [reported, ← output]
        rcases ih later with ⟨fine, last, records, same, shown⟩ | ⟨bad, raises⟩
        · refine .inl ⟨⟨⟨?_, fine.1⟩, apart, fine.2⟩, last, record :: records, ?_, ?_⟩
          · rintro outcome same
            exact Option.some.inj same ▸ handled
          · simpa [Except.map] using same
          · simp [shown, outcomeOf, reportOutcome_ok reported]
        · exact .inr ⟨fun fine => bad ⟨fine.1.2, fine.2.2⟩, raises⟩
      · rw [reported]
        exact .inr ⟨fun fine => fails ⟨fine.1.1 _ rfl, fine.2.1⟩, loop.logger, loop.written, raised, rfl⟩

theorem Accounted.scans_le (accounted : Accounted config paths loop) :
    loop.scans.length ≤ paths.length := by
  rw [← accounted.order]
  simp

/-- The tasks have the queued paths in their order. -/
theorem Accounted.path (accounted : Accounted config paths loop) {number : Nat} {task : ScanTask}
    (stored : loop.scans[number]? = some task) : paths[number]? = some task.path := by
  have inside := (List.getElem?_eq_some_iff.mp stored).1
  rw [← accounted.order, List.getElem?_append_left (by simpa using inside), List.getElem?_map, stored]
  rfl

/-- A task that finishes keeps the account and becomes lighter. -/
theorem finishScan_spec (settled : Settled config paths loop) {number : Nat} {path : Str}
    (stored : loop.scans[number]? = some ⟨path, none⟩) :
    let after := { loop with scans := loop.scans.set number ⟨path, some (config.outcome number path)⟩ }
    Settled config paths after ∧ after.weight < loop.weight := by
  have accounted := settled.accounted
  have inside := (List.getElem?_eq_some_iff.mp stored).1
  have member := accounted.unfinished number _ stored rfl
  refine ⟨⟨⟨accounted.finished, accounted.noReady, ?_, ?_, ?_, ?_, ?_⟩, settled.control⟩, ?_⟩
  · simpa using accounted.named
  · rw [← accounted.order]
    change (loop.scans.set number _).map ScanTask.path ++ _ = _
    rw [List.map_set]
    congr 1
    apply List.ext_getElem?
    intro index
    have named : (loop.scans.map ScanTask.path)[number]? = some path := by
      rw [List.getElem?_map, stored]
      rfl
    rw [Transition.getElem?_replace named]
    split
    · rename_i same
      rw [same, named]
    · rfl
  · intro index task outcome found ended
    rcases Transition.replace_cases found with ⟨rfl, rfl⟩ | ⟨_, found⟩
    · rw [outcomeAt, List.getD_eq_getElem?_getD, accounted.path stored]
      exact (Option.some.inj ended).symm
    · exact accounted.outcomes index task outcome found ended
  · intro index task found pending
    rcases Transition.replace_cases found with ⟨rfl, _⟩ | ⟨_, found⟩
    · exact member
    · exact accounted.unfinished index task found pending
  · simpa using accounted.account
  · refine Nat.add_lt_add_left (countP_lt ?_ member ?_ ?_) _
    · intro task _ pending
      cases task with
      | ready other => exact pending
      | scan other =>
          by_cases same : number = other
          · subst same
            simp [doneTask, stored]
          · simpa [doneTask, List.getElem?_set_ne same] using pending
    · simp [doneTask, stored]
    · simp [doneTask, inside]

theorem ended_swap (accounted : Accounted config paths loop) {completed : List (TaskName × ℚ)}
    (listed : (completed.map Prod.fst).Perm (loop.tasks.filter loop.doneTask)) :
    Ended config paths loop.swap completed := by
  intro entry member
  have inside := listed.mem_iff.mp (List.mem_map_of_mem member)
  obtain ⟨task, done⟩ := List.mem_filter.mp inside
  obtain ⟨number, small, named⟩ := accounted.named entry.1 task
  refine ⟨number, named, ?_⟩
  rw [named] at done
  change (loop.scans[number]?).bind ScanTask.outcome = _
  change (loop.scans[number]?).any (fun task => task.outcome.isSome) = true at done
  obtain ⟨scan, stored, finished⟩ := (Option.any_eq_true _ _).mp done
  obtain ⟨outcome, ended⟩ := Option.isSome_iff_exists.mp finished
  rw [stored, Option.bind_some, ended, accounted.outcomes number scan outcome stored ended]

/-- The weight drops with every completed task. -/
theorem weight_swap {completed : List (TaskName × ℚ)} (nonempty : completed ≠ [])
    (listed : (completed.map Prod.fst).Perm (loop.tasks.filter loop.doneTask)) :
    loop.swap.weight < loop.weight := by
  have split := (List.filter_append_perm loop.doneTask loop.tasks).length_eq
  have some_done : 0 < (loop.tasks.filter loop.doneTask).length := by
    rw [← listed.length_eq, List.length_map]
    exact List.length_pos_iff.mpr nonempty
  have pending : loop.swap.tasks.countP (fun task => !loop.doneTask task) ≤
      loop.tasks.countP (fun task => !loop.doneTask task) :=
    (List.filter_sublist).countP_le
  change 2 * loop.filesToScan.len + loop.swap.tasks.length +
    loop.swap.tasks.countP (fun task => !loop.doneTask task) < loop.weight
  rw [List.length_append] at split
  unfold weight swap at *
  dsimp only at *
  omega

/-- The reported records replace their tasks in the account. -/
theorem accounted_report (accounted : Accounted config paths loop) (logger : Logger)
    {completed : List (TaskName × ℚ)} {records : List Record}
    (listed : (completed.map Prod.fst).Perm (loop.tasks.filter loop.doneTask))
    (shown : records.map some = completed.map fun entry => outcomeOf config paths entry.1) :
    Accounted config paths
      { loop.swap with logger := logger, written := loop.written ++ records } := by
  refine ⟨accounted.finished, accounted.noReady, ?_, accounted.order, accounted.outcomes, ?_, ?_⟩
  · exact fun task member => accounted.named task (List.mem_filter.mp member).1
  · intro number task stored pending
    change loop.scans[number]? = some task at stored
    refine List.mem_filter.mpr ⟨accounted.unfinished number task stored pending, ?_⟩
    simp [doneTask, stored, pending]
  · have done : (completed.map fun entry => outcomeOf config paths entry.1) =
        (completed.map Prod.fst).map (outcomeOf config paths) := by simp
    have split := (List.filter_append_perm loop.doneTask loop.tasks).map (outcomeOf config paths)
    rw [List.map_append] at split
    change ((loop.written ++ records).map some ++ loop.swap.tasks.map (outcomeOf config paths)).Perm _
    rw [List.map_append, shown, done, List.append_assoc]
    have replaced := (listed.map (outcomeOf config paths)).append_right
      (loop.swap.tasks.map (outcomeOf config paths))
    exact ((replaced.trans split).append_left _).trans accounted.account

/-- A raised exception ends the run, and every other state is settled. -/
def Sound (config : ScanConfig) (paths : List Str) (loop : ScanLoop) : Prop :=
  Settled config paths loop ∨ ∃ raised, loop.control = .raised raised

/-- Every queued path has an outcome that the loop handles. -/
def AllHandled (config : ScanConfig) (paths : List Str) : Prop :=
  ∀ number path, paths[number]? = some path → Handled (config.outcome number path)

theorem outcomeAt_eq {number : Nat} {path : Str} (queued : paths[number]? = some path) :
    outcomeAt config paths number = config.outcome number path := by
  rw [outcomeAt, List.getD_eq_getElem?_getD, queued]
  rfl

theorem handled_outcomeAt (handled : AllHandled config paths) {number : Nat} (small : number < paths.length) :
    Handled (outcomeAt config paths number) := by
  have queued := List.getElem?_eq_getElem small
  rw [outcomeAt_eq queued]
  exact handled number _ queued

theorem resume_spec (positive : 1 ≤ config.maxScans) (settled : Settled config paths loop)
    (waiting : loop.control = .waiting) {completed : List (TaskName × ℚ)} {after : ScanLoop}
    (stepped : step config loop (.resume completed) = some after) :
    Sound config paths after ∧ after.weight < loop.weight ∧
      (AllHandled config paths → ClockAdvances loop (.resume completed) → Settled config paths after) ∧
        (Settled config paths after → ClockAdvances loop (.resume completed)) := by
  rw [step, if_pos waiting] at stepped
  obtain ⟨⟨nonempty, listed⟩, same⟩ := Option.ite_none_right_eq_some.mp stepped
  have lighter := weight_swap nonempty listed
  have accounted := settled.accounted
  have ended := ended_swap accounted listed
  change (if (reportAll completed loop.swap).control = .waiting then _ else _) = some after at same
  rcases reportAll_cases completed ended with
    ⟨⟨_, apart⟩, logger, records, reported, shown⟩ | ⟨fails, logger, written, raised, reported⟩
  · rw [reported] at same
    change (if loop.control = .waiting then _ else _) = some after at same
    rw [if_pos waiting] at same
    obtain rfl := Option.some.inj same
    obtain ⟨entered, weight⟩ := enter_spec positive (accounted_report accounted logger listed shown)
    exact ⟨.inl entered, weight.trans_lt lighter, fun _ _ => entered, fun _ => apart⟩
  · have control : (reportAll completed loop.swap).control = .raised raised := by rw [reported]
    rw [control, if_neg (by simp)] at same
    obtain rfl := Option.some.inj same
    refine ⟨.inr ⟨raised, control⟩, by rw [reported]; exact lighter, fun handled clock => ?_, fun stays => ?_⟩
    · refine absurd ⟨?_, clock⟩ fails
      intro entry member outcome has
      have task := (List.mem_filter.mp (listed.mem_iff.mp (List.mem_map_of_mem member))).1
      obtain ⟨number, small, named⟩ := accounted.named _ task
      obtain ⟨_, again, done⟩ := ended entry member
      obtain rfl := TaskName.scan.inj (named.symm.trans again)
      rw [named] at has
      obtain rfl := Option.some.inj (has.symm.trans done)
      exact handled_outcomeAt handled (small.trans_le accounted.scans_le)
    · rcases stays.control with returned | waits
      · rw [control] at returned
        cases returned.1
      · rw [control] at waits
        cases waits.1

/-- Every step keeps the loop sound and lighter. Handled outcomes keep it settled exactly if the clock advances. -/
theorem sound_step (positive : 1 ≤ config.maxScans) (notWatching : config.watch = false)
    {label : Label} {after : ScanLoop} (sound : Sound config paths loop)
    (stepped : step config loop label = some after) :
    (Settled config paths loop ∧ Sound config paths after) ∧ after.weight < loop.weight ∧
      (AllHandled config paths → ClockAdvances loop label → Settled config paths after) ∧
        (Settled config paths after → ClockAdvances loop label) := by
  have waiting : loop.control = .waiting := (Option.ite_none_right_eq_some.mp stepped).1
  have settled : Settled config paths loop := by
    cases sound with
    | inl settled => exact settled
    | inr raises =>
        obtain ⟨raised, ended⟩ := raises
        rw [waiting] at ended
        contradiction
  cases label with
  | finishScan number =>
      unfold step at stepped
      rw [if_pos waiting] at stepped
      dsimp only at stepped
      split at stepped
      · rename_i path stored
        obtain rfl := Option.some.inj stepped
        obtain ⟨after, lighter⟩ := finishScan_spec settled stored
        exact ⟨⟨settled, .inl after⟩, lighter, fun _ _ => after, fun _ => trivial⟩
      · contradiction
  | stepReady number =>
      simp [step, waiting, stepReady, settled.accounted.noReady.1] at stepped
  | put path => simp [step, waiting, notWatching] at stepped
  | resume completed =>
      obtain ⟨kept, rest⟩ := resume_spec positive settled waiting stepped
      exact ⟨⟨settled, kept⟩, rest⟩

/-- An unfinished queue without waiters appends what is put. -/
theorem put_all (queue : FinishableQueue Str) (unfinished : queue.finishedFlag = false)
    (alone : queue.waiters = []) (paths : List Str) :
    let filled := paths.foldl (fun queue path => (queue.put path).2) queue
    filled.q = queue.q ++ paths ∧ filled.finishedFlag = false ∧ filled.waiters = [] := by
  induction paths generalizing queue with
  | nil => simp [unfinished, alone]
  | cons path others ih =>
      have put : (queue.put path).2 = { queue with q := queue.q ++ [path] }.markReady := by
        simp [FinishableQueue.put, unfinished, alone]
      rw [List.foldl_cons, put]
      obtain ⟨items, rest⟩ := ih { queue with q := queue.q ++ [path] }.markReady unfinished alone
      refine ⟨items.trans ?_, rest⟩
      simp [FinishableQueue.markReady]

theorem atStart_spec (positive : 1 ≤ config.maxScans) (notWatching : config.watch = false) :
    Settled config paths (atStart config paths) ∧ (atStart config paths).weight = 2 * paths.length := by
  obtain ⟨items, unfinished, alone⟩ := put_all .initial rfl rfl paths
  have queue : (gathered config paths).q = paths ∧ (gathered config paths).finishedFlag = true := by
    simp only [gathered, notWatching, Bool.false_eq_true, if_false, FinishableQueue.finish,
      unfinished, alone, List.isEmpty_nil, if_true]
    exact ⟨by simpa [FinishableQueue.markReady, FinishableQueue.initial] using items, rfl⟩
  have accounted : Accounted config paths
      ⟨gathered config paths, [], [], [], none, .initial, [], .waiting⟩ :=
    ⟨queue.2, ⟨rfl, rfl⟩, by simp, by simpa using queue.1, by simp, by simp, by simp⟩
  obtain ⟨settled, weight⟩ := enter_spec positive accounted
  refine ⟨settled, weight.trans ?_⟩
  simp [ScanLoop.weight, FinishableQueue.len, queue.1]

/-- This clock advances by one second for each reading. -/
def readings : ℚ → List TaskName → List (TaskName × ℚ)
  | _, [] => []
  | base, task :: others => (task, base + 1) :: readings (base + 1) others

theorem readings_tasks (base : ℚ) (tasks : List TaskName) :
    (readings base tasks).map Prod.fst = tasks := by
  induction tasks generalizing base with
  | nil => rfl
  | cons task others ih => simp [readings, ih]

theorem readings_increase (base : ℚ) (tasks : List TaskName) :
    (base :: (readings base tasks).map Prod.snd).Pairwise (· < ·) := by
  induction tasks generalizing base with
  | nil => simp [readings]
  | cons task others ih =>
      have later := ih (base + 1)
      simp only [readings, List.map_cons]
      refine List.pairwise_cons.mpr ⟨?_, later⟩
      intro reading member
      have next : base < base + 1 := lt_add_one base
      cases List.mem_cons.mp member with
      | inl first => exact first ▸ next
      | inr after => exact next.trans ((List.pairwise_cons.mp later).1 reading after)

/-- Readings that increase are apart. -/
theorem outputsApart_of_increasing (scans : List ScanTask) (last : Option ℚ) (completed : List (TaskName × ℚ))
    (increasing : (last.toList ++ completed.map Prod.snd).Pairwise (· < ·)) :
    OutputsApart scans last completed := by
  induction completed generalizing last with
  | nil => trivial
  | cons entry others ih =>
      obtain ⟨task, now⟩ := entry
      obtain ⟨_, later, first⟩ := List.pairwise_append.mp increasing
      rw [List.map_cons, List.pairwise_cons] at later
      have kept : (last.toList ++ others.map Prod.snd).Pairwise (· < ·) :=
        increasing.sublist ((List.sublist_cons_self _ _).append_left _)
      have moved : ((some now).toList ++ others.map Prod.snd).Pairwise (· < ·) := List.pairwise_cons.mpr later
      rw [OutputsApart]
      split
      · exact ih last kept
      · refine ⟨?_, ih _ ?_⟩
        · rintro _ rfl
          exact lt_irrefl now (first now (by simp) now List.mem_cons_self)
        · unfold Logger.nextOutput
          split
          · exact moved
          · split
            · exact moved
            · exact kept

/-- Every list of tasks has readings that advance. -/
theorem exists_readings (loop : ScanLoop) (tasks : List TaskName) :
    ∃ completed, completed.map Prod.fst = tasks ∧ ClockAdvances loop (.resume completed) := by
  cases kept : loop.logger.lastOutput with
  | none =>
      refine ⟨readings 0 tasks, readings_tasks 0 tasks, outputsApart_of_increasing _ _ _ ?_⟩
      rw [kept]
      exact (List.pairwise_cons.mp (readings_increase 0 tasks)).2
  | some last =>
      refine ⟨readings last tasks, readings_tasks last tasks, outputsApart_of_increasing _ _ _ ?_⟩
      rw [kept]
      exact readings_increase last tasks

/-- A waiting loop can go on while the clock advances. -/
theorem enabled (settled : Settled config paths loop) (waiting : loop.control = .waiting) :
    ∃ label after, step config loop label = some after ∧ ClockAdvances loop label := by
  have nonempty : loop.tasks ≠ [] := by
    cases settled.control with
    | inl allDone => simp [allDone.1] at waiting
    | inr going => exact going.2
  by_cases done : loop.tasks.filter loop.doneTask = []
  · obtain ⟨task, member⟩ := List.exists_mem_of_ne_nil _ nonempty
    obtain ⟨number, small, rfl⟩ := settled.accounted.named task member
    have pending : (loop.scans[number]).outcome = none := by
      have unfinished := List.filter_eq_nil_iff.mp done _ member
      simpa [doneTask, small] using unfinished
    have stored : loop.scans[number]? = some ⟨(loop.scans[number]).path, none⟩ := by
      rw [List.getElem?_eq_getElem small, ← pending]
    have stepped : (step config loop (.finishScan number)).isSome = true := by
      rw [step, if_pos waiting]
      simp [stored]
    obtain ⟨after, same⟩ := Option.isSome_iff_exists.mp stepped
    exact ⟨_, after, same, trivial⟩
  · obtain ⟨completed, listed, advances⟩ := exists_readings loop (loop.tasks.filter loop.doneTask)
    have reported : completed ≠ [] ∧
        (completed.map Prod.fst).Perm (loop.tasks.filter loop.doneTask) := by
      refine ⟨?_, listed ▸ List.Perm.refl _⟩
      rintro rfl
      exact done listed.symm
    refine ⟨.resume completed, ?_⟩
    simp only [step, if_pos waiting, if_pos reported]
    split
    · exact ⟨_, rfl, advances⟩
    · exact ⟨_, rfl, advances⟩

/-- The loop has returned with one record for each queued path, which shows the outcome of the scan of this
path. -/
structure EveryFileReported (config : ScanConfig) (paths : List Str) (last : ScanLoop) : Prop where
  returned : last.control = .returned
  records : ∃ records, records.Perm last.written ∧
    List.Forall₂ (fun queued record => RecordFor (config.outcome queued.2 queued.1) record) paths.zipIdx records

theorem sound_run (positive : 1 ≤ config.maxScans) (notWatching : config.watch = false)
    {past : List (ScanLoop × Label)} {last : ScanLoop}
    (run : Transition.Run (system config paths) past last) : Sound config paths last := by
  refine (run.always (Sound config paths) ?_ ?_).1
  · rintro state rfl
    exact .inl (atStart_spec positive notWatching).1
  · exact fun state label after sound stepped => (sound_step positive notWatching sound stepped).1.2

theorem run_bounded (positive : 1 ≤ config.maxScans) (notWatching : config.watch = false)
    {past : List (ScanLoop × Label)} {last : ScanLoop}
    (run : Transition.Run (system config paths) past last) : past.length ≤ 2 * paths.length := by
  have bounded := run.length_le (Sound config paths) weight (2 * paths.length) (by
      rintro state rfl
      obtain ⟨settled, weight⟩ := atStart_spec positive notWatching
      exact ⟨.inl settled, weight.le⟩)
    (fun state label after sound stepped =>
      let spec := sound_step positive notWatching sound stepped
      ⟨spec.1.2, spec.2.1⟩)
  omega

/-- A returned loop has shown the record of every outcome. -/
theorem returned_records (settled : Settled config paths loop) (returned : loop.control = .returned) :
    (loop.written.map some).Perm ((List.range paths.length).map (recordOf ∘ outcomeAt config paths)) := by
  have allDone : loop.tasks = [] ∧ loop.filesToScan.q = [] := by
    cases settled.control with
    | inl allDone => exact allDone.2
    | inr going => simp [going.1] at returned
  have accounted := settled.accounted
  have scans : loop.scans.length = paths.length := by
    rw [← accounted.order, allDone.2]
    simp
  simpa [allDone.1, scans] using accounted.account

/-- The queued paths with their numbers have these outcomes. -/
theorem outcomes_zipIdx (config : ScanConfig) (paths : List Str) :
    (List.range paths.length).map (outcomeAt config paths) =
      paths.zipIdx.map fun queued => config.outcome queued.2 queued.1 := by
  apply List.ext_getElem (by simp)
  intro number small _
  rw [List.length_map, List.length_range] at small
  simp [outcomeAt_eq (List.getElem?_eq_getElem small)]

/-- Handled outcomes have one record each, in their order. -/
theorem recordFor_each {outcomes : List Outcome} (handled : ∀ outcome ∈ outcomes, Handled outcome) :
    List.Forall₂ RecordFor outcomes (outcomes.filterMap recordOf) := by
  induction outcomes with
  | nil => exact .nil
  | cons outcome others ih =>
      obtain ⟨record, shown⟩ := Option.isSome_iff_exists.mp (handled outcome List.mem_cons_self)
      rw [List.filterMap_cons_some shown]
      exact .cons (recordFor_of_recordOf shown) (ih fun other member => handled other (List.mem_cons_of_mem _ member))

/-- A settled loop that is stuck has returned. -/
theorem returned_of_stuck (settled : Settled config paths loop)
    (stuck : Transition.Stuck (system config paths) loop) : loop.control = .returned := by
  cases settled.control with
  | inl allDone => exact allDone.1
  | inr going =>
      obtain ⟨label, after, stepped, _⟩ := enabled settled going.1
      have nothing := stuck label
      change step config loop label = none at nothing
      rw [nothing] at stepped
      contradiction

/-- A loop that has returned is settled, and it has handled every outcome. -/
theorem allHandled_of_returned (sound : Sound config paths loop) (returned : loop.control = .returned) :
    Settled config paths loop ∧ AllHandled config paths := by
  cases sound with
  | inr raises =>
      obtain ⟨raised, ended⟩ := raises
      rw [returned] at ended
      contradiction
  | inl settled =>
      refine ⟨settled, fun number path queued => ?_⟩
      have small := (List.getElem?_eq_some_iff.mp queued).1
      have member : recordOf (outcomeAt config paths number) ∈ loop.written.map some := by
        rw [(returned_records settled returned).mem_iff]
        exact List.mem_map.mpr ⟨number, List.mem_range.mpr small, rfl⟩
      obtain ⟨record, _, shown⟩ := List.mem_map.mp member
      rw [outcomeAt_eq queued] at shown
      exact Option.isSome_iff_exists.mpr ⟨record, shown.symm⟩

/-- While the clock advances, handled outcomes never make the loop raise. -/
theorem settled_run (positive : 1 ≤ config.maxScans) (notWatching : config.watch = false)
    (handled : AllHandled config paths) {past : List (ScanLoop × Label)} {last : ScanLoop}
    (run : Transition.Run (system config paths) past last)
    (advances : Transition.Meets ClockAdvances past) : Settled config paths last := by
  refine (run.throughout ClockAdvances (Settled config paths) ?_ ?_ advances).1
  · rintro state rfl
    exact (atStart_spec positive notWatching).1
  · intro state label after settled advance stepped
    exact (sound_step positive notWatching (.inl settled) stepped).2.2.1 handled advance

/-- The clock has advanced in a run that has not raised. -/
theorem advances_of_settled (positive : 1 ≤ config.maxScans) (notWatching : config.watch = false)
    {past : List (ScanLoop × Label)} {last : ScanLoop} (run : Transition.Run (system config paths) past last)
    (settled : Settled config paths last) : Transition.Meets ClockAdvances past := by
  induction run with
  | start => exact Transition.meets_nil _
  | @next past state after label earlier stepped ih =>
      obtain ⟨⟨before, _⟩, _, _, advanced⟩ :=
        sound_step positive notWatching (sound_run positive notWatching earlier) stepped
      exact (Transition.meets_cons _ _ _).mpr ⟨advanced settled, ih before⟩

/-- Every run ends, and every complete one has reported all files exactly if each outcome has a handler and the
clock advances. -/
theorem every_file_reported_iff (config : ScanConfig) (paths : List Str)
    (positive : 1 ≤ config.maxScans) (notWatching : config.watch = false) :
    (∀ past last, Transition.Run (system config paths) past last → past.length ≤ 2 * paths.length) ∧
      ∀ past last, Transition.Run (system config paths) past last →
        Transition.Stuck (system config paths) last →
          (EveryFileReported config paths last ↔
            AllHandled config paths ∧ Transition.Meets ClockAdvances past) := by
  refine ⟨fun _ _ run => run_bounded positive notWatching run, fun past last run stuck => ⟨?_, ?_⟩⟩
  · rintro ⟨returned, _⟩
    obtain ⟨settled, handled⟩ := allHandled_of_returned (sound_run positive notWatching run) returned
    exact ⟨handled, advances_of_settled positive notWatching run settled⟩
  · rintro ⟨handled, advances⟩
    have settled := settled_run positive notWatching handled run advances
    have returned := returned_of_stuck settled stuck
    have shown := (returned_records settled returned).filterMap id
    rw [← List.map_map, outcomes_zipIdx] at shown
    let outcomes := paths.zipIdx.map fun queued => config.outcome queued.2 queued.1
    refine ⟨returned, outcomes.filterMap recordOf, ?_, ?_⟩
    · simpa [outcomes, List.filterMap_map, Function.comp_def] using shown.symm
    · refine List.forall₂_map_left_iff.mp (recordFor_each fun outcome member => ?_)
      obtain ⟨⟨path, number⟩, queued, rfl⟩ := List.mem_map.mp member
      exact handled number path (List.mem_zipIdx_iff_getElem?.mp queued)

/-- One file is clean, and the other one is missing. -/
def cleanAndMissing : ScanConfig :=
  ⟨1, false, fun _ path => if path = text "/a" then
    .ok ⟨text "/a", 1, 68, false, text "OK", text "now", text "/a: OK"⟩
    else .error ⟨.fileNotFoundError, path⟩⟩

/-- A clean file and a missing one are both reported by a loop with one slot. -/
theorem every_file_reported_pair : ∃ past last,
    Transition.Run (system cleanAndMissing [text "/a", text "/b"]) past last ∧
      EveryFileReported cleanAndMissing [text "/a", text "/b"] last := by
  have begins : Transition.Run (system cleanAndMissing [text "/a", text "/b"]) []
      (atStart cleanAndMissing [text "/a", text "/b"]) := .start rfl
  obtain ⟨⟨past, last⟩, followed, shown⟩ := (Option.any_eq_true _ _).mp
    (show (Transition.follow (system cleanAndMissing [text "/a", text "/b"])
      [.finishScan 0, .resume [(.scan 0, 0)], .finishScan 1, .resume [(.scan 1, 1)]]
        ([], atStart cleanAndMissing [text "/a", text "/b"])).any (fun reached =>
          decide (Transition.Meets ClockAdvances reached.1 ∧ reached.2.control = .returned)) = true from
      by decide +kernel)
  obtain ⟨advances, returned⟩ := of_decide_eq_true shown
  have run := begins.follow _ followed
  have stuck : Transition.Stuck (system cleanAndMissing [text "/a", text "/b"]) last := by
    intro label
    refine if_neg ?_
    rw [returned]
    decide
  refine ⟨past, last, run, ((every_file_reported_iff _ _ (by decide) rfl).2 _ _ run stuck).mpr ⟨?_, advances⟩⟩
  intro number path queued
  match number with
  | 0 =>
      obtain rfl := Option.some.inj queued
      decide
  | 1 =>
      obtain rfl := Option.some.inj queued
      decide
  | _ + 2 => simp at queued

/-- One call of `scan_file` by `main` can have this outcome. -/
def ScanFileOutcome (path : Str) (outcome : Outcome) : Prop :=
  ∃ files lstat scanLstat reply now,
    outcome = (ClamAVDB.scanFile files path true lstat scanLstat reply now).1

/-- In this run a path lies below a file that has replaced its directory. -/
def replacedDirectory : ScanConfig := ⟨1, false, fun _ path => .error ⟨.notADirectoryError, path⟩⟩

/-- An exception without a handler ends the loop without a record. -/
theorem replaced_directory_unreported : ¬ ∀ config paths, 1 ≤ config.maxScans →
    config.watch = false →
    (∀ number path, paths[number]? = some path → ScanFileOutcome path (config.outcome number path)) →
      ∀ past last, Transition.Run (system config paths) past last → Transition.Meets ClockAdvances past →
        Transition.Stuck (system config paths) last → EveryFileReported config paths last := by
  intro always
  have begins : Transition.Run (system replacedDirectory [text "/a/b"]) []
      (atStart replacedDirectory [text "/a/b"]) := .start rfl
  have run := begins.follow [.finishScan 0, .resume [(.scan 0, 0)]] rfl
  have reported := always replacedDirectory [text "/a/b"] (by decide) rfl (by
    intro number path _
    exact ⟨fun _ => none, .error ⟨.notADirectoryError, path⟩, .ok ⟨.regular, 0, 0⟩, [], [], rfl⟩) _ _ run
    (by decide) (fun _ => rfl)
  exact absurd reported.returned (by decide)

end ClamavDbscan.ScanLoop
