import DsaTest.Driver.Ledger

/-! Every descriptor with interrupts is completed and freed exactly once, and a pass of the
interrupt thread leaves nothing behind that has been answered before, as long as `enqcmds` does
not fail and no interrupt handle is lost. -/
namespace DsaTest.Driver

variable {cfg : Config} {s t : State} {a : Action} {d x : Nat} {g g' : Stage} {memory : Bool}
  {h : List (State × Action)}

theorem inv_alloc (ok : Inv s) (unused : s.allocated d = false) : Inv (s.alloc d) := by
  obtain ⟨g, so⟩ := ok.stage d
  obtain rfl := so.free_of_unowned unused
  apply ok.client_edge so .alloc rfl
  · intro x other
    refine ⟨?_, ?_, rfl, ?_, ?_, rfl, Iff.rfl, ⟨[.alloc d], rfl, by simpa [Event.desc] using other.symm⟩⟩
      <;> simp [State.alloc, State.record, other]
  · simp [State.alloc, State.record, Stage.allocated]
  · simp [State.alloc, State.record, Stage.submitter]
  · exact so.busy
  · simp [State.alloc, State.record, Stage.cookie]
  · exact so.places
  · decide
  · simp [State.alloc, State.record, Stage.Status]
  · rfl
  · rfl
  · rfl
  · exact fun _ => id
  · exact fun _ => id
  · rintro ⟨⟩

theorem inv_refuse (ok : Inv s) (client : s.submitter d = .ready false) : Inv (s.refuse d) := by
  obtain ⟨g, so⟩ := ok.stage d
  obtain rfl : g = .ready false :=
    Stage.eq_of_submitter (so.submitter.symm.trans client) (by simp [Stage.submitter])
  have refused : s.refuse d = { s with
      submitter := Function.update s.submitter d .away
      allocated := Function.update s.allocated d false
      log := [.free d, .refused d] ++ s.log } := by
    refine (free_of_allocated ?_).trans rfl
    exact so.allocated
  rw [refused]
  apply ok.client_edge so .refuse rfl
  · intro x other
    refine ⟨?_, ?_, rfl, rfl, rfl, rfl, Iff.rfl, ⟨_, rfl, by simpa [Event.desc] using other.symm⟩⟩
      <;> simp [other]
  · simp [Stage.allocated]
  · simp [Stage.submitter]
  · exact so.busy
  · simp
  · exact so.places
  · decide
  · trivial
  · rfl
  · rfl
  · rfl
  · exact fun _ => id
  · exact fun _ => id
  · rintro ⟨⟩

theorem inv_giveUp (ok : Inv s) (client : s.submitter d = .ready true) : Inv (s.giveUp d) := by
  obtain ⟨g, so⟩ := ok.stage d
  obtain rfl : g = .ready true :=
    Stage.eq_of_submitter (so.submitter.symm.trans client) (by simp [Stage.submitter])
  obtain ⟨result, called⟩ := callBack_of_status (d := d) (s := { s with
    submitter := Function.update s.submitter d .away
    status := Function.update s.status d idxdCompDescAbort }.record (.gaveUp d)) .abort
    (by simp [State.record, idxdCompDescAbort]) (so.cookie (by decide))
  have gaveUp : s.giveUp d = { s with
      submitter := Function.update s.submitter d .away
      status := Function.update s.status d idxdCompDescAbort
      cookie := Function.update s.cookie d false
      due := s.due.filter (· ≠ d)
      allocated := Function.update s.allocated d false
      log := [.free d, .callback d result, .gaveUp d] ++ s.log } := by
    rw [State.giveUp, called]
    refine (free_of_allocated ?_).trans rfl
    exact so.allocated
  rw [gaveUp]
  apply ok.client_edge so (.giveUp result) rfl
  · intro x other
    refine ⟨?_, ?_, rfl, ?_, ?_, rfl, Iff.rfl, ⟨_, rfl, by simpa [Event.desc] using other.symm⟩⟩
      <;> simp [other]
  · simp [Stage.allocated]
  · simp [Stage.submitter]
  · exact so.busy
  · simp
  · exact so.places
  · decide
  · trivial
  · rfl
  · rfl
  · rfl
  · exact fun x member => (List.mem_filter.mp member).1
  · exact fun _ => id
  · rintro ⟨⟩

theorem inv_list {again : Bool} (ok : Inv s) (client : s.submitter d = .ready again) :
    Inv (s.list d) := by
  obtain ⟨g, so⟩ := ok.stage d
  obtain rfl : g = .ready again :=
    Stage.eq_of_submitter (so.submitter.symm.trans client) (by simp [Stage.submitter])
  have places := so.places
  apply ok.client_edge (t := s.list d) so (.list again) rfl
  · intro x other
    refine ⟨rfl, ?_, rfl, rfl, rfl, ?_, Iff.rfl, ⟨[], rfl, by simp⟩⟩
    · simp [State.list, other]
    · simp [State.list, State.lists, other.symm]
  · exact so.allocated
  · simp [State.list, Stage.submitter]
  · exact so.busy
  · exact fun _ => so.cookie (by simp)
  · simpa [State.list, State.lists, Stage.places] using places
  · simp
  · exact so.status
  · rfl
  · rfl
  · rfl
  · exact fun _ => id
  · exact List.subset_cons_self d _
  · rintro ⟨⟩

theorem inv_accept (ok : Inv s) (client : s.submitter d = .listed) : Inv (s.accept d) := by
  obtain ⟨g, so⟩ := ok.stage d
  obtain rfl : g = .listed :=
    Stage.eq_of_submitter (so.submitter.symm.trans client) (by simp [Stage.submitter])
  apply ok.client_edge (t := s.accept d) so .accept rfl
  · intro x other
    refine ⟨rfl, ?_, ?_, rfl, rfl, rfl, Iff.rfl, ⟨[], rfl, by simp⟩⟩ <;>
      simp [State.accept, other]
  · exact so.allocated
  · simp [State.accept, Stage.submitter]
  · simp [State.accept]
  · exact fun _ => so.cookie (by decide)
  · exact so.places
  · decide
  · exact so.status
  · rfl
  · rfl
  · rfl
  · exact fun _ => id
  · exact fun _ => id
  · exact fun _ => id

theorem inv_restart (ok : Inv s) (client : s.submitter d = .retrying) : Inv (s.restart d) := by
  obtain ⟨g, so⟩ := ok.stage d
  obtain rfl : g = .retrying :=
    Stage.eq_of_submitter (so.submitter.symm.trans client) (by simp [Stage.submitter])
  apply ok.client_edge (t := s.restart d) so .restart rfl
  · intro x other
    refine ⟨rfl, ?_, rfl, rfl, ?_, rfl, Iff.rfl, ⟨[], rfl, by simp⟩⟩ <;>
      simp [State.restart, other]
  · exact so.allocated
  · simp [State.restart, Stage.submitter]
  · exact so.busy
  · exact fun _ => so.cookie (by decide)
  · exact so.places
  · decide
  · simp [State.restart, Stage.Status]
  · rfl
  · rfl
  · rfl
  · exact fun _ => id
  · exact fun _ => id
  · rintro ⟨⟩

theorem inv_answer {status : Nat} (ok : Inv s) (busy : s.busy d = true)
    (some : dsaCompStatus status ≠ 0) (other : status ≠ idxdCompDescAbort) :
    Inv (s.answer d status) := by
  obtain ⟨g, so⟩ := ok.stage d
  obtain rfl : g = .waiting := by
    have waiting := so.busy
    rw [busy] at waiting
    simpa using waiting.symm
  apply ok.client_edge so .answer rfl
  · intro x apart
    refine ⟨rfl, rfl, ?_, rfl, ?_, rfl, Iff.rfl, ⟨[.answer d], rfl, by
      simpa [Event.desc] using apart.symm⟩⟩ <;> simp [State.answer, State.record, apart]
  · exact so.allocated
  · exact so.submitter
  · simp [State.answer, State.record]
  · exact fun _ => so.cookie (by decide)
  · exact so.places
  · decide
  · simpa [State.answer, State.record, Stage.Status] using ⟨some, other⟩
  · rfl
  · rfl
  · rfl
  · exact fun _ => id
  · exact fun _ => id
  · intro _ _
    simp only [State.answer, State.record, Function.update_self]
    rintro rfl
    exact some rfl

section

/- Steps of the interrupt thread, from one place to the next. -/
variable {irq : Irq} (straight : ∀ x flist, irq ≠ .next x flist true)
  (walking : ∀ x ∈ irq.walking, x ∈ s.irq.walking)

include straight walking

theorem Inv.irq_requeue (ok : Inv s) (so : At s d .answered) (was : s.irq.freeing = none)
    (now : irq.freeing = none)
    (held : s.irq.held = d :: irq.held)
    (ahead : ∀ x ≠ d, x ∈ s.irq.ahead s.pendingLlist → x ∈ irq.ahead s.pendingLlist) :
    Inv { s.requeue d with irq := irq } where
  stage := by
    apply ok.stage_of_other (d := d)
    · intro x other
      refine ⟨rfl, ?_, rfl, rfl, rfl, ?_, ?_, ⟨[.requeue d], rfl, by
        simpa [Event.desc] using other.symm⟩⟩
      · simp [State.requeue, State.record, other]
      · simp [State.requeue, State.record, State.lists, held, other.symm]
      · simp [was, now]
    · have places := so.places
      refine ⟨_, so.along .requeue rfl so.allocated ?_ so.busy (fun _ => so.cookie (by decide)) ?_ ?_
        trivial⟩
      · simp [State.requeue, State.record, Stage.submitter]
      · simp only [State.lists, List.count_append, held, List.count_cons_self, Stage.places] at places
        simp only [State.requeue, State.record, State.lists, List.count_append, Stage.places]
        omega
      · simp [now]
  seen x member := ok.seen x (walking x member)
  straight := straight
  fault := ok.fault
  revoker := ok.revoker
  due x member := by
    simp only [State.requeue, State.record, List.mem_filter, decide_eq_true_eq] at member
    obtain ⟨answered, there⟩ := ok.due x member.1
    exact ⟨answered, ahead x member.2 there⟩

theorem Inv.irq_callBack (ok : Inv s) (so : At s d .answered) (type : CompleteType)
    (was : s.irq.freeing = none) (now : irq.freeing = some d)
    (held : irq.held = s.irq.held)
    (ahead : ∀ x ≠ d, x ∈ s.irq.ahead s.pendingLlist → x ∈ irq.ahead s.pendingLlist) :
    Inv { s.callBack type d with irq := irq } := by
  have status : s.status d ≠ 0 := by
    intro zero
    have value := so.status.1
    rw [zero] at value
    exact value rfl
  obtain ⟨result, called⟩ := callBack_of_status type status (so.cookie (by decide))
  rw [called]
  refine ⟨?_, fun x member => ok.seen x (walking x member), straight, ok.fault, ok.revoker, ?_⟩
  · apply ok.stage_of_other (d := d)
    · intro x other
      refine ⟨rfl, rfl, rfl, ?_, rfl, ?_, ?_, ⟨[.callback d result], rfl, by
        simpa [Event.desc] using other.symm⟩⟩
      · simp [State.record, other]
      · simp [State.record, State.lists, held]
      · simp [was, now, other.symm]
    · refine ⟨_, so.along (.callback result) rfl so.allocated so.submitter so.busy ?_ ?_ ?_
        so.status⟩
      · simp [State.record, Stage.cookie]
      · simpa [State.record, State.lists, held, Stage.places] using so.places
      · simp [now]
  · intro x member
    simp only [State.record, List.mem_filter, decide_eq_true_eq] at member
    obtain ⟨answered, there⟩ := ok.due x member.1
    exact ⟨answered, ahead x member.2 there⟩

theorem Inv.irq_free (ok : Inv s) (was : s.irq.freeing = some d) (now : irq.freeing = none)
    (held : s.irq.held = d :: irq.held)
    (ahead : ∀ x, x ∈ s.irq.ahead s.pendingLlist → x ∈ irq.ahead s.pendingLlist) :
    Inv { s.free d with irq := irq } := by
  obtain ⟨g, so⟩ := ok.stage d
  obtain rfl := so.freeing.mp was
  rw [free_of_allocated so.allocated]
  refine ⟨?_, fun x member => ok.seen x (walking x member), straight, ok.fault, ok.revoker,
    fun x member => ⟨(ok.due x member).1, ahead x (ok.due x member).2⟩⟩
  apply ok.stage_of_other (d := d)
  · intro x other
    refine ⟨?_, rfl, rfl, rfl, rfl, ?_, ?_, ⟨[.free d], rfl, by
      simpa [Event.desc] using other.symm⟩⟩
    · simp [State.record, other]
    · simp [State.record, State.lists, held, other.symm]
    · simp [was, now, other.symm]
  · have places := so.places
    refine ⟨_, so.along .free rfl ?_ so.submitter so.busy (by simp) ?_ ?_ trivial⟩
    · simp [State.record, Stage.allocated]
    · simp only [State.lists, List.count_append, held, List.count_cons_self, Stage.places] at places
      simp only [State.record, State.lists, List.count_append, Stage.places]
      omega
    · simp [now]

end

theorem Inv.irq_move (ok : Inv s) (lists : ∀ x, t.lists.count x = s.lists.count x)
    (freeing : t.irq.freeing = s.irq.freeing) (allocated : t.allocated = s.allocated)
    (submitter : t.submitter = s.submitter) (busy : t.busy = s.busy) (cookie : t.cookie = s.cookie)
    (status : t.status = s.status) (log : t.log = s.log) (fault : t.fault = s.fault)
    (revoker : t.revoker = s.revoker) (straight : ∀ x flist, t.irq ≠ .next x flist true)
    (walking : ∀ x ∈ t.irq.walking, s.status x ≠ 0)
    (due : ∀ x ∈ t.due, s.status x ≠ 0 ∧ x ∈ t.irq.ahead t.pendingLlist) : Inv t where
  stage x := by
    obtain ⟨g, so⟩ := ok.stage x
    exact ⟨g, so.frame (.of_lists lists freeing allocated submitter busy cookie status log x)⟩
  seen := by rwa [status]
  straight := straight
  fault := fault.trans ok.fault
  revoker := revoker.trans ok.revoker
  due := by rwa [status]

theorem Inv.answered_of_held (ok : Inv s) (held : d ∈ s.irq.held) (was : s.irq.freeing = none)
    (status : s.status d ≠ 0) : At s d .answered := by
  obtain ⟨g, so⟩ := ok.stage d
  obtain rfl := so.answered_of_status (List.mem_append_right _ held) status (by simp [was])
  exact so

theorem inv_irq (ok : Inv s) (memory : Bool) : Inv (irqStep cfg memory s) := by
  have due := ok.due
  have seen := ok.seen
  unfold irqStep
  split
  next idle =>
    apply ok.irq_move <;> try rfl
    · intro x
      have split := count_filter_split s.status s.workList x
      simp only [State.lists, Irq.held, idle, List.count_append, List.count_nil]
      omega
    · rw [idle]
      rfl
    · simp
    · simp [Irq.walking]
    · intro x member
      simp only [Irq.ahead, List.mem_append, List.mem_filter, decide_eq_true_eq] at member ⊢
      tauto
  next walk =>
    rw [walk] at due
    apply ok.irq_move <;> simp_all [State.lists, Irq.held, Irq.freeing, Irq.walking, Irq.ahead]
  next d flist walk =>
    have answered := ok.answered_of_held (d := d) (by simp [walk, Irq.held]) (by simp [walk,
      Irq.freeing]) (seen d (by simp [walk, Irq.walking]))
    split
    · apply ok.irq_requeue (by simp) _ answered
      all_goals simp_all [Irq.held, Irq.freeing, Irq.walking, Irq.ahead]
    · apply ok.irq_callBack (by simp) _ answered
      all_goals simp_all [Irq.held, Irq.freeing, Irq.walking, Irq.ahead]
  next d flist walk =>
    apply ok.irq_free (d := d)
    all_goals simp_all [Irq.held, Irq.freeing, Irq.walking, Irq.ahead]
  next d flist relinked walk =>
    have straight : relinked = false := by
      have straight := ok.straight d flist
      cases relinked <;> simp_all
    rw [walk] at due
    apply ok.irq_move <;>
      simp_all [State.lists, Irq.held, Irq.freeing, Irq.walking, Irq.ahead]
  next walk =>
    rw [walk] at due
    apply ok.irq_move <;>
      simp_all [State.lists, Irq.held, Irq.freeing, Irq.walking, Irq.ahead, Nat.add_comm]
  next walk =>
    rw [walk] at due
    apply ok.irq_move <;> simp_all [State.lists, Irq.held, Irq.freeing, Irq.walking, Irq.ahead]
  next d head walk =>
    have none : s.irq.freeing = none := by simp [walk, Irq.freeing]
    split
    next untouched =>
      -- a due descriptor has been answered
      have other (x : Nat) (member : x ∈ s.due) : x ≠ d := by
        rintro rfl
        have answered := ok.answered_of_held (d := x) (by simp [walk, Irq.held]) none
          (due x member).1
        exact answered.status.1 untouched
      rw [walk] at due
      apply ok.irq_move <;> simp_all [State.lists, Irq.held, Irq.freeing, Irq.walking, Irq.ahead]
    next touched =>
      have answered := ok.answered_of_held (d := d) (by simp [walk, Irq.held]) none
        (fun zero => touched (by rw [zero]; rfl))
      split
      · apply ok.irq_requeue (by simp) _ answered
        all_goals simp_all [Irq.held, Irq.freeing, Irq.walking, Irq.ahead]
      · apply ok.irq_callBack (by simp) _ answered
        all_goals simp_all [Irq.held, Irq.freeing, Irq.walking, Irq.ahead]
  next d head walk =>
    apply ok.irq_free (d := d)
    all_goals simp_all [Irq.held, Irq.freeing, Irq.walking, Irq.ahead]
  next d head walk =>
    rw [walk] at due
    apply ok.irq_move <;>
      simp_all [State.lists, Irq.held, Irq.freeing, Irq.walking, Irq.ahead]

theorem Inv.move (ok : Inv s) (accepts : cfg.rejects = false)
    (keeps : cfg.requestIntHandles = false ∨ cfg.revokes = false)
    (taken : step cfg s a = some t) : Move cfg s a t := by
  apply move_of_step accepts keeps _ ok.revoker taken
  intro d
  obtain ⟨g, so⟩ := ok.stage d
  rw [so.submitter]
  cases g <;> trivial

theorem Move.inv (move : Move cfg s a t) (ok : Inv s) : Inv t := by
  cases move with
  | alloc _ unused _ => exact inv_alloc ok unused
  | refuse client => exact inv_refuse ok client
  | giveUp client => exact inv_giveUp ok client
  | list client => exact inv_list ok client
  | accept client => exact inv_accept ok client
  | restart client => exact inv_restart ok client
  | answer busy some other => exact inv_answer ok busy some other
  | irq => exact inv_irq ok _

theorem inv_of_run (accepts : cfg.rejects = false)
    (keeps : cfg.requestIntHandles = false ∨ cfg.revokes = false) (run : Run cfg h s) : Inv s :=
  run.invariant inv_initial fun _ _ _ ok taken => (ok.move accepts keeps taken).inv ok

theorem At.answered_iff (so : At s d g) : s.Answered d ↔ g = .answered := by
  have freeing := so.freeing
  unfold State.Answered
  rw [so.allocated, so.submitter, so.busy]
  cases g <;> simp_all [Stage.allocated, Stage.submitter]

/-- No descriptor is freed twice; each is called back once before it is freed, unless its
submission has been refused; and each answer is used once, for a callback or a resubmission. -/
theorem complete_once (cfg : Config) (h : List (State × Action)) (s : State)
    (accepts : cfg.rejects = false) (keeps : cfg.requestIntHandles = false ∨ cfg.revokes = false)
    (run : Run cfg h s) (d : Nat) :
    s.fault = false ∧
    s.log.count (.alloc d) = s.log.count (.free d) + (s.allocated d).toNat ∧
    s.log.count (.free d) + (if s.irq.freeing = some d then 1 else 0) =
      callbacks s.log d + s.log.count (.refused d) ∧
    s.log.count (.answer d) + s.log.count (.gaveUp d) =
      callbacks s.log d + s.log.count (.requeue d) + (if s.Answered d then 1 else 0) := by
  have ok := inv_of_run accepts keeps run
  obtain ⟨g, so⟩ := ok.stage d
  refine ⟨ok.fault, ?_, ?_, ?_⟩
  · rw [so.allocated]
    exact so.books.allocs
  · rw [if_congr so.freeing rfl rfl]
    exact so.books.frees
  · rw [if_congr so.answered_iff rfl rfl]
    exact so.books.answers

/-- One descriptor, whose interrupt handle is invalid the first time. -/
theorem complete_once_again :
    ∃ h s, Run ⟨1, true, false, false⟩ h s ∧
      (s.fault = false ∧
      s.log.count (.alloc 0) = s.log.count (.free 0) + (s.allocated 0).toNat ∧
      s.log.count (.free 0) + (if s.irq.freeing = some 0 then 1 else 0) =
        callbacks s.log 0 + s.log.count (.refused 0) ∧
      s.log.count (.answer 0) + s.log.count (.gaveUp 0) =
        callbacks s.log 0 + s.log.count (.requeue 0) + (if s.Answered 0 then 1 else 0)) := by
  obtain ⟨h, run, -⟩ := Machine.run_of_exec (rfl : Machine.exec (step ⟨1, true, false, false⟩)
    [.alloc 0, .list 0, .enqcmds 0 true, .answer 0 0x19, .irq true, .irq true, .irq true, .irq true,
      .irq true, .restart 0, .list 0, .enqcmds 0 true, .answer 0 1, .irq true, .irq true, .irq true,
      .irq true, .irq true, .irq true] initial = some _)
  exact ⟨h, _, run, complete_once _ h _ rfl (.inr rfl) run 0⟩

def handled (log : List Event) (d : Nat) : Nat := callbacks log d + log.count (.requeue d)

theorem handled_mono {log log' : List Event} (more : log <:+ log') (d : Nat) :
    handled log d ≤ handled log' d :=
  Nat.add_le_add more.sublist.countP_le (more.sublist.count_le _)

theorem callBack_log (s : State) (type : CompleteType) (d : Nat) :
    s.log <:+ (s.callBack type d).log := by
  unfold State.callBack
  repeat' split
  · exact List.suffix_cons _ _
  · exact List.suffix_refl _
  · exact List.suffix_refl _

theorem free_log (s : State) (d : Nat) : s.log <:+ (s.free d).log := by
  unfold State.free
  split
  · exact List.suffix_cons _ _
  · exact List.suffix_refl _

theorem irqStep_log (cfg : Config) (memory : Bool) (s : State) :
    s.log <:+ (irqStep cfg memory s).log := by
  unfold irqStep
  split
  case h_3 =>
    split
    · exact List.suffix_cons _ _
    · exact callBack_log s _ _
  case h_8 =>
    repeat' split
    · exact List.suffix_refl _
    · exact List.suffix_cons _ _
    · exact callBack_log s _ _
  case h_4 | h_9 => exact free_log s _
  all_goals exact List.suffix_refl _

theorem Move.log (move : Move cfg s a t) : s.log <:+ t.log := by
  cases move with
  | @refuse d _ =>
    have freed := free_log ({ s with submitter := Function.update s.submitter d .away }.record
      (.refused d)) d
    exact (List.suffix_cons _ _).trans freed
  | @giveUp d _ =>
    have called := callBack_log ({ s with
      submitter := Function.update s.submitter d .away
      status := Function.update s.status d idxdCompDescAbort }.record (.gaveUp d)) .abort d
    exact (List.suffix_cons _ _).trans (called.trans (free_log _ _))
  | irq => exact irqStep_log cfg _ s
  | alloc | answer => exact List.suffix_cons _ _
  | list | accept | restart => exact List.suffix_refl _

theorem requeue_due (x : Nat) (member : d ∈ s.due) :
    d ∈ (s.requeue x).due ∨ handled s.log d < handled (s.requeue x).log d := by
  by_cases here : d = x
  · subst here
    refine .inr ?_
    simp [State.requeue, State.record, handled, callbacks, Event.isCallback]
  · exact .inl (List.mem_filter.mpr ⟨member, by simpa using here⟩)

theorem free_due (s : State) (d : Nat) : (s.free d).due = s.due := by
  unfold State.free
  split <;> rfl

theorem callBack_due_other (type : CompleteType) (member : d ∈ s.due) (other : d ≠ x) :
    d ∈ (s.callBack type x).due := by
  unfold State.callBack
  repeat' split
  · exact List.mem_filter.mpr ⟨member, by simpa using other⟩
  · exact member
  · exact member

theorem callBack_due (type : CompleteType) (so : At s x .answered) (member : d ∈ s.due) :
    d ∈ (s.callBack type x).due ∨ handled s.log d < handled (s.callBack type x).log d := by
  have status : s.status x ≠ 0 := by
    intro zero
    have value := so.status.1
    rw [zero] at value
    exact value rfl
  obtain ⟨result, called⟩ := callBack_of_status type status (so.cookie (by decide))
  rw [called]
  by_cases here : d = x
  · subst here
    refine .inr ?_
    simp [State.record, handled, callbacks, Event.isCallback, Event.desc]
  · exact .inl (List.mem_filter.mpr ⟨member, by simpa using here⟩)

theorem irq_due (ok : Inv s) (member : d ∈ s.due) (busy : s.irq ≠ .idle) :
    d ∈ (irqStep cfg memory s).due ∨ handled s.log d < handled (irqStep cfg memory s).log d := by
  unfold irqStep
  split
  case h_1 idle => exact absurd idle busy
  case h_4 | h_9 => exact .inl ((free_due s _).symm ▸ member)
  case h_3 x flist walk =>
    split
    · exact requeue_due x member
    · exact callBack_due _ (ok.answered_of_held (by simp [walk, Irq.held]) (by simp [walk,
        Irq.freeing]) (ok.seen x (by simp [walk, Irq.walking]))) member
  case h_8 x head walk =>
    split
    · exact .inl member
    next touched =>
      split
      · exact requeue_due x member
      · exact callBack_due _ (ok.answered_of_held (by simp [walk, Irq.held]) (by simp [walk,
          Irq.freeing]) (fun zero => touched (by rw [zero]; rfl))) member
  all_goals exact .inl member

theorem Move.due (move : Move cfg s a t) (ok : Inv s) (member : d ∈ s.due)
    (busy : s.irq ≠ .idle) : d ∈ t.due ∨ handled s.log d < handled t.log d := by
  cases move with
  | irq => exact irq_due ok member busy
  | refuse =>
    refine .inl ?_
    rw [State.refuse, free_due]
    exact member
  | @giveUp x client =>
    obtain ⟨g, so⟩ := ok.stage x
    obtain rfl : g = .ready true :=
      Stage.eq_of_submitter (so.submitter.symm.trans client) (by simp [Stage.submitter])
    have other := so.unlisted rfl (Irq.ahead_lists (ok.due d member).2)
    refine .inl ?_
    rw [State.giveUp, free_due]
    exact callBack_due_other _ member other
  | _ => exact .inl member

/-- Once a pass has begun, a descriptor that had been answered by then is due or handled. -/
theorem due_or_handled (accepts : cfg.rejects = false)
    (keeps : cfg.requestIntHandles = false ∨ cfg.revokes = false) {n : Nat} {acts : List Action}
    (ok : Inv s) (so : d ∈ s.due ∧ n ≤ handled s.log d)
    (pass : Machine.exec (step cfg) acts s = some t) :
    Inv t ∧ (d ∈ t.due ∧ n ≤ handled t.log d ∨ n < handled t.log d) := by
  apply Machine.exec_invariant
    (P := fun s => Inv s ∧ (d ∈ s.due ∧ n ≤ handled s.log d ∨ n < handled s.log d)) _
    ⟨ok, .inl so⟩ pass
  rintro s a t ⟨ok, so⟩ taken
  have move := ok.move accepts keeps taken
  have more := handled_mono move.log d
  refine ⟨move.inv ok, ?_⟩
  rcases so with ⟨due, few⟩ | passed
  · have busy : s.irq ≠ .idle := by
      intro idle
      have ahead := (ok.due d due).2
      simp [idle, Irq.ahead] at ahead
    rcases move.due ok due busy with due | handled
    · exact .inl ⟨due, Nat.le_trans few more⟩
    · exact .inr (Nat.lt_of_le_of_lt few handled)
  · exact .inr (Nat.lt_of_lt_of_le passed more)

/-- A descriptor that has been answered when a pass of the interrupt thread begins has been
called back or queued again when the thread is idle again, whatever happens meanwhile. -/
theorem answered_handled (cfg : Config) (h : List (State × Action)) (s t : State) (d : Nat)
    (memory : Bool) (acts : List Action) (accepts : cfg.rejects = false)
    (keeps : cfg.requestIntHandles = false ∨ cfg.revokes = false) (run : Run cfg h s)
    (idle : s.irq = .idle) (answered : s.Answered d)
    (pass : Machine.exec (step cfg) (.irq memory :: acts) s = some t) (again : t.irq = .idle) :
    handled s.log d < handled t.log d := by
  have ok := inv_of_run accepts keeps run
  obtain ⟨g, so⟩ := ok.stage d
  obtain rfl := so.answered_iff.mp answered
  obtain ⟨u, taken, rest⟩ := Option.bind_eq_some_iff.mp pass
  obtain rfl : irqStep cfg memory s = u := Option.some.inj taken
  have listed : d ∈ s.lists := List.count_pos_iff.mp (by rw [so.places]; decide)
  have status : s.status d ≠ 0 := by
    intro zero
    have value := so.status.1
    rw [zero] at value
    exact value rfl
  have due : d ∈ (irqStep cfg memory s).due := by
    simp only [State.lists, idle, Irq.held, List.append_nil, List.mem_append] at listed
    simp only [irqStep, idle, List.mem_append, List.mem_filter, decide_eq_true_eq]
    tauto
  have same : (irqStep cfg memory s).log = s.log := by simp [irqStep, idle]
  obtain ⟨ok', ends⟩ := due_or_handled (n := handled s.log d) accepts keeps
    (inv_irq ok memory) ⟨due, Nat.le_of_eq (by rw [same])⟩ rest
  apply ends.resolve_left
  rintro ⟨member, _⟩
  have ahead := (ok'.due d member).2
  simp [again, Irq.ahead] at ahead

/-- A pass over one answered descriptor. -/
theorem answered_handled_one :
    ∃ h s t, Run ⟨1, true, false, false⟩ h s ∧
      Machine.exec (step ⟨1, true, false, false⟩) (List.replicate 6 (.irq true)) s = some t ∧
      handled s.log 0 < handled t.log 0 := by
  obtain ⟨h, run, -⟩ := Machine.run_of_exec (rfl : Machine.exec (step ⟨1, true, false, false⟩)
    [.alloc 0, .list 0, .enqcmds 0 true, .answer 0 1] initial = some _)
  exact ⟨h, _, _, run, rfl, answered_handled _ h _ _ 0 true (List.replicate 5 (.irq true)) rfl
    (.inr rfl) run rfl (by decide) rfl (by decide)⟩

section

/- Where `enqcmds` fails or an interrupt handle is lost there are runs that go wrong. -/

def abortRun : List Action :=
  [.alloc 0, .list 0, .irq true, .irq true, .irq true, .enqcmds 0 false, .abort 0, .abort 0,
    .abort 0, .abort 0, .irq true, .irq true]

def revokeRun : List Action :=
  [.alloc 0, .list 0, .enqcmds 0 true, .irq true, .irq true, .irq true, .irq true, .irq true,
    .irq true, .answer 0 1, .irq true, .irq true, .irq true, .alloc 0, .list 0, .enqcmds 0 true,
    .revoke, .irq true]

theorem abortRun_fault : ∀ handles revokes : Bool,
    (Machine.exec (step ⟨1, handles, true, revokes⟩) abortRun initial).map State.fault =
      some true := by
  decide

theorem revokeRun_fault : ∀ rejects : Bool,
    (Machine.exec (step ⟨1, true, rejects, true⟩) revokeRun initial).map State.fault =
      some true := by
  decide

theorem step_more {n : Nat} {handles rejects revokes : Bool}
    (taken : step ⟨1, handles, rejects, revokes⟩ s a = some t) :
    step ⟨n + 1, handles, rejects, revokes⟩ s a = some t := by
  cases a with
  | alloc d =>
    simp only [step, Option.ite_none_right_eq_some] at taken ⊢
    exact ⟨⟨by omega, taken.1.2⟩, taken.2⟩
  | _ => exact taken

theorem exec_more {n : Nat} {handles rejects revokes : Bool} {acts : List Action}
    (run : Machine.exec (step ⟨1, handles, rejects, revokes⟩) acts s = some t) :
    Machine.exec (step ⟨n + 1, handles, rejects, revokes⟩) acts s = some t := by
  induction acts generalizing s with
  | nil => exact run
  | cons a acts ih =>
    obtain ⟨u, taken, rest⟩ := Option.bind_eq_some_iff.mp run
    rw [Machine.exec, step_more taken]
    exact ih rest

theorem reaches_fault {n : Nat} {handles rejects revokes : Bool} {acts : List Action}
    (run : (Machine.exec (step ⟨1, handles, rejects, revokes⟩) acts initial).map State.fault =
      some true) :
    ∃ h t, Run ⟨n + 1, handles, rejects, revokes⟩ h t ∧ t.fault = true := by
  obtain ⟨t, result, fault⟩ := Option.map_eq_some_iff.mp run
  obtain ⟨h, run, -⟩ := Machine.run_of_exec (exec_more (n := n) result)
  exact ⟨h, t, run, fault⟩

end

structure Empty (s : State) : Prop where
  away : ∀ d, s.submitter d = .away
  still : ∀ d, s.busy d = false
  pending : s.pendingLlist = []
  work : s.workList = []
  irq : s.irq = .idle ∨ s.irq = .walk [] ∨ s.irq = .takeAll ∨ s.irq = .pending []
  revoker : s.revoker = []
  fault : s.fault = false

theorem Empty.step (none : cfg.numDescs = 0) (so : Empty s) (taken : step cfg s a = some t) :
    Empty t := by
  obtain ⟨away, still, pending, work, irq, revoker, fault⟩ := so
  cases a with
  | irq memory =>
    obtain rfl := Option.some.inj taken
    rcases irq with irq | irq | irq | irq <;>
      constructor <;>
      simp [irqStep, irq, away, still, pending, work, revoker, fault]
  | revoke =>
    simp only [Driver.step, revokeStep, Option.ite_none_right_eq_some, Option.some.injEq] at taken
    obtain ⟨-, rfl⟩ := taken
    rcases irq with irq | irq | irq | irq <;>
      constructor <;>
      simp [State.relink, irq, away, still, pending, work, fault]
  | alloc d => simp [Driver.step, none] at taken
  | abort d => simp [Driver.step, abortStep, away] at taken
  | _ => simp [Driver.step, away, still, revoker] at taken

/-- No run frees a descriptor twice, uses one that is none or leaves a list, if and only if there
are no descriptors or neither can `enqcmds` fail for good nor an interrupt handle be lost. -/
theorem fault_free_iff (cfg : Config) :
    (∀ h s, Run cfg h s → s.fault = false) ↔
      cfg.numDescs = 0 ∨
      (cfg.rejects = false ∧ (cfg.requestIntHandles = false ∨ cfg.revokes = false)) := by
  constructor
  · intro safe
    obtain ⟨n, handles, rejects, revokes⟩ := cfg
    rcases n with _ | n
    · exact .inl rfl
    by_contra danger
    have faulty : ∃ h t, Run ⟨n + 1, handles, rejects, revokes⟩ h t ∧ t.fault = true := by
      cases rejects with
      | true => exact reaches_fault (abortRun_fault handles revokes)
      | false =>
        cases handles <;> cases revokes <;> simp at danger
        exact reaches_fault (revokeRun_fault false)
    obtain ⟨h, t, run, fault⟩ := faulty
    rw [safe h t run] at fault
    contradiction
  · rintro (none | ⟨accepts, keeps⟩) h s run
    · have empty : Empty initial := ⟨fun _ => rfl, fun _ => rfl, rfl, rfl, .inl rfl, rfl, rfl⟩
      exact (run.invariant empty fun _ _ _ so taken => so.step none taken).fault
    · exact (inv_of_run accepts keeps run).fault

end DsaTest.Driver
