import DsaTest.Driver.EventLogInv

/-! Each logged entry is handled once and in order, those of a process that has closed its queue
are passed over, and no entry waits without an interrupt. -/
namespace DsaTest.Driver.EventLog

variable {size : Nat} {s t : State} {a : Action} {h : List (State × Action)}

theorem closer_cases {i : Nat} (ok : Inv size s) (taken : closerStep size s i = some t) :
    t.logged = s.logged ∧
    ((∃ wq pasid h t' pos upto, s.closer i = .marking wq pasid h t' pos upto ∧
        pos < upto ∧ t.closer = Function.update s.closer i
          (.marking wq pasid ((h + 1) % size) t' (pos + 1) upto) ∧
        t.marks = if (s.ring h).pasid = pasid ∧ (s.ring h).wqIdx = wq then pos :: s.marks
          else s.marks) ∨
      (∀ wq pasid h t' pos upto, s.closer i = .marking wq pasid h t' pos upto → upto = pos) ∧
        t.marks = s.marks ∧ ∃ c, t.closer = Function.update s.closer i c ∧ c.locks = false) := by
  unfold closerStep at taken
  dsimp only at taken
  split at taken
  next => contradiction
  next wq pasid h t' pos upto at_ =>
    obtain ⟨h_eq, t_eq, le, le', below, -⟩ := ok.marking i wq pasid h t' pos upto at_
    split at taken
    next done =>
      cases taken
      have all : pos = upto := Ring.slot_injective ok.room (Nat.le_trans ok.released le)
        (Nat.le_trans le' below) (Nat.le_trans ok.released (Nat.le_trans le le')) below
        (h_eq.symm.trans (done.trans t_eq))
      refine ⟨rfl, .inr ⟨?_, rfl, _, rfl, rfl⟩⟩
      intro _ _ _ _ _ _ own
      cases at_.symm.trans own
      exact all.symm
    next on =>
      have lt : pos < upto := by
        rcases Nat.lt_or_eq_of_le le' with lt | equal
        · exact lt
        · exact absurd (by rw [h_eq, t_eq, equal]) on
      refine ⟨?_, .inl ⟨wq, pasid, h, t', pos, upto, at_, lt, ?_⟩⟩
      · split at taken <;> cases taken <;> rfl
      · split at taken <;> cases taken
        next own => exact ⟨rfl, (if_pos own).symm⟩
        next other => exact ⟨rfl, (if_neg other).symm⟩
  next wq pasid upto at_ =>
    cases taken
    exact ⟨rfl, .inr ⟨fun _ _ _ _ _ _ own => (by cases at_.symm.trans own), rfl, _, rfl, rfl⟩⟩
  next wq pasid upto at_ =>
    split at taken
    next empty =>
      cases taken
      exact ⟨rfl, .inr ⟨fun _ _ _ _ _ _ own => (by cases at_.symm.trans own), rfl, _, rfl, rfl⟩⟩
    next => contradiction

/-- A process has begun to close a queue when the entry at a position was logged and not
handled. -/
def ClosedOver (h : List (State × Action)) (wq pasid k : Nat) : Prop :=
  ∃ s' i, (s', Action.close i wq pasid) ∈ h ∧ s'.outcomes.length ≤ k ∧ k < s'.logged.length

def Ahead (s : State) (wq pasid k : Nat) : Prop :=
  ∃ i h t pos upto, s.closer i = .marking wq pasid h t pos upto ∧ pos ≤ k ∧ k < upto

structure History (h : List (State × Action)) (s : State) : Prop where
  old : ∀ p ∈ h, p.1.logged.length ≤ s.logged.length
  begun : ∀ wq pasid k, Ahead s wq pasid k → ClosedOver h wq pasid k
  found : ∀ k ∈ s.marks, ∀ e, s.logged[k]? = some e → ClosedOver h e.wqIdx e.pasid k
  marked : ∀ k e, s.logged[k]? = some e → ClosedOver h e.wqIdx e.pasid k →
    k ∈ s.marks ∨ Ahead s e.wqIdx e.pasid k

theorem ClosedOver.cons {wq pasid k : Nat} (closed : ClosedOver h wq pasid k) :
    ClosedOver ((s, a) :: h) wq pasid k := by
  obtain ⟨s', i, member, rest⟩ := closed
  exact ⟨s', i, List.mem_cons_of_mem _ member, rest⟩

theorem closedOver_cons {wq pasid k : Nat} (other : ∀ i wq pasid, a ≠ .close i wq pasid)
    (closed : ClosedOver ((s, a) :: h) wq pasid k) : ClosedOver h wq pasid k := by
  obtain ⟨s', i, member, rest⟩ := closed
  rcases List.mem_cons.mp member with same | older
  · cases same
    exact absurd rfl (other _ _ _)
  · exact ⟨s', i, older, rest⟩

theorem misc_frame {alloc : Bool} (taken : miscStep size s alloc = some t) :
    t.logged = s.logged ∧ t.marks = s.marks ∧ t.closer = s.closer := by
  unfold miscStep at taken
  split at taken
  next =>
    simp only [Option.ite_none_right_eq_some, Option.some.injEq] at taken
    obtain ⟨_, rfl⟩ := taken
    exact ⟨rfl, rfl, rfl⟩
  next =>
    cases taken
    exact ⟨rfl, rfl, rfl⟩
  next =>
    simp only [Option.ite_none_right_eq_some, Option.some.injEq] at taken
    obtain ⟨_, rfl⟩ := taken
    exact ⟨rfl, rfl, rfl⟩
  next =>
    cases taken
    exact ⟨rfl, rfl, rfl⟩
  next h t' upto loop =>
    split at taken <;> cases taken
    · exact ⟨rfl, rfl, rfl⟩
    · unfold processEvlEntry
      dsimp only
      split <;> exact ⟨rfl, rfl, rfl⟩

theorem History.same (past : History h s) (logged : t.logged = s.logged) (marks : t.marks = s.marks)
    (closer : t.closer = s.closer) (other : ∀ i wq pasid, a ≠ .close i wq pasid) :
    History ((s, a) :: h) t where
  old := by
    rw [List.forall_mem_cons, logged]
    exact ⟨Nat.le_refl _, past.old⟩
  begun wq pasid k ahead := by
    unfold Ahead at ahead
    rw [closer] at ahead
    exact (past.begun wq pasid k ahead).cons
  found := by
    rw [logged, marks]
    exact fun k member e at_ => (past.found k member e at_).cons
  marked := by
    unfold Ahead
    rw [logged, marks, closer]
    exact fun k e at_ closed => past.marked k e at_ (closedOver_cons other closed)

theorem history_log {e : Entry} (ok : Inv size s) (past : History h s)
    (taken : step size s (.log e) = some t) : History ((s, .log e) :: h) t := by
  simp only [step, Option.ite_none_left_eq_some, Option.some.injEq] at taken
  obtain ⟨_, rfl⟩ := taken
  refine ⟨?_, ?_, ?_, ?_⟩
  · rw [List.forall_mem_cons]
    simp only [List.length_append]
    exact ⟨Nat.le_add_right _ _, fun p member => Nat.le_add_right_of_le (past.old p member)⟩
  · exact fun wq pasid k ahead => (past.begun wq pasid k ahead).cons
  · intro k member e' at_
    rw [List.getElem?_append_left (ok.marks k member)] at at_
    exact (past.found k member e' at_).cons
  · intro k e' at_ closed
    have before := closedOver_cons (by simp) closed
    have before' := before
    obtain ⟨s', i, member, _, below⟩ := before'
    rw [List.getElem?_append_left (Nat.lt_of_lt_of_le below (past.old _ member))] at at_
    exact past.marked k e' at_ before

theorem history_close {i wq pasid : Nat} (past : History h s)
    (away : s.closer i = .away) (taken : step size s (.close i wq pasid) = some t) :
    History ((s, .close i wq pasid) :: h) t := by
  simp only [step, Option.ite_none_right_eq_some, Option.some.injEq] at taken
  obtain ⟨_, rfl⟩ := taken
  refine ⟨?_, ?_, ?_, ?_⟩
  · rw [List.forall_mem_cons]
    exact ⟨Nat.le_refl _, past.old⟩
  · rintro wq' pasid' k ⟨j, h', t', pos, upto, at_, from_, below⟩
    by_cases self : j = i
    · subst self
      simp only [Function.update_self, Closer.marking.injEq] at at_
      obtain ⟨rfl, rfl, rfl, rfl, rfl, rfl⟩ := at_
      exact ⟨s, j, List.mem_cons_self, from_, below⟩
    · simp only [Function.update_of_ne self] at at_
      exact (past.begun wq' pasid' k ⟨j, h', t', pos, upto, at_, from_, below⟩).cons
  · exact fun k member e at_ => (past.found k member e at_).cons
  · rintro k e at_ ⟨s', j, member, from_, below⟩
    rcases List.mem_cons.mp member with same | older
    · cases same
      exact .inr ⟨i, _, _, _, _, Function.update_self .., from_, below⟩
    · refine (past.marked k e at_ ⟨s', j, older, from_, below⟩).imp_right ?_
      rintro ⟨j, h', t', pos, upto, marking, rest⟩
      have other : j ≠ i := by
        rintro rfl
        cases away.symm.trans marking
      exact ⟨j, h', t', pos, upto, (Function.update_of_ne other _ _).trans marking, rest⟩

theorem history_closer {i : Nat} (ok : Inv size s) (past : History h s)
    (taken : closerStep size s i = some t) : History ((s, .closer i) :: h) t := by
  obtain ⟨logged, ⟨wq, pasid, h', t', pos, upto, at_, lt, closer, marks⟩ |
    ⟨done, marks, c, closer, quiet⟩⟩ := closer_cases ok taken
  · obtain ⟨h_eq, -, le, le', below, -⟩ := ok.marking i wq pasid h' t' pos upto at_
    have entry {e : Entry} (at' : s.logged[pos]? = some e) : s.ring h' = e :=
      h_eq ▸ ok.holds pos (Nat.le_trans ok.released le) e at'
    refine ⟨?_, ?_, ?_, ?_⟩
    · rw [List.forall_mem_cons, logged]
      exact ⟨Nat.le_refl _, past.old⟩
    · rintro wq' pasid' k ⟨j, h', t', pos', upto', mark, from_, before⟩
      rw [closer] at mark
      by_cases self : j = i
      · subst self
        rw [Function.update_self, Closer.marking.injEq] at mark
        obtain ⟨rfl, rfl, rfl, rfl, rfl, rfl⟩ := mark
        exact (past.begun _ _ k ⟨j, _, _, pos, _, at_, by omega, before⟩).cons
      · rw [Function.update_of_ne self] at mark
        exact (past.begun wq' pasid' k ⟨j, h', t', pos', upto', mark, from_, before⟩).cons
    · rw [logged, marks]
      intro k member e at'
      split at member
      next own =>
        rcases List.mem_cons.mp member with rfl | older
        · obtain ⟨rfl, rfl⟩ := entry at' ▸ own
          exact (past.begun _ _ k ⟨i, _, _, k, _, at_, Nat.le_refl _, lt⟩).cons
        · exact (past.found k older e at').cons
      next => exact (past.found k member e at').cons
    · rw [logged, marks]
      intro k e at' closed
      rcases past.marked k e at' (closedOver_cons (by simp) closed) with older |
        ⟨j, h', t', pos', upto', mark, from_, before⟩
      · refine .inl ?_
        split
        · exact List.mem_cons_of_mem _ older
        · exact older
      · by_cases self : j = i
        · subst self
          cases at_.symm.trans mark
          rcases Nat.lt_or_eq_of_le from_ with later | rfl
          · exact .inr ⟨j, _, _, _, _, by rw [closer, Function.update_self], later, before⟩
          · refine .inl ?_
            rw [entry at', if_pos ⟨rfl, rfl⟩]
            exact List.mem_cons_self
        · exact .inr ⟨j, h', t', pos', upto', by rw [closer, Function.update_of_ne self, mark],
            from_, before⟩
  · refine ⟨?_, ?_, ?_, ?_⟩
    · rw [List.forall_mem_cons, logged]
      exact ⟨Nat.le_refl _, past.old⟩
    · rintro wq' pasid' k ⟨j, h', t', pos, upto, at_, rest⟩
      rw [closer] at at_
      by_cases self : j = i
      · subst self
        rw [Function.update_self] at at_
        simp [at_, Closer.locks] at quiet
      · rw [Function.update_of_ne self] at at_
        exact (past.begun wq' pasid' k ⟨j, h', t', pos, upto, at_, rest⟩).cons
    · rw [logged, marks]
      exact fun k member e at_ => (past.found k member e at_).cons
    · rw [logged, marks]
      intro k e at_ closed
      refine (past.marked k e at_ (closedOver_cons (by simp) closed)).imp_right ?_
      rintro ⟨j, h', t', pos, upto, at_, from_, below⟩
      have other : j ≠ i := by
        rintro rfl
        have := done _ _ _ _ _ _ at_
        omega
      exact ⟨j, h', t', pos, upto, by rw [closer, Function.update_of_ne other]; exact at_, from_, below⟩

theorem history_of_run (pos : 0 < size) (run : Run size h s) : History h s := by
  induction run with
  | start => exact ⟨by simp, by simp [Ahead, initial], by simp [initial], by simp [initial]⟩
  | @next h s a t before taken ih =>
    have ok := inv_of_run pos before
    cases a with
    | log e => exact history_log ok ih taken
    | misc alloc =>
      obtain ⟨logged, marks, closer⟩ := misc_frame taken
      exact ih.same logged marks closer (by simp)
    | run w =>
      simp only [step, Option.ite_none_right_eq_some, Option.some.injEq] at taken
      obtain ⟨_, rfl⟩ := taken
      exact ih.same rfl rfl rfl (by simp)
    | close i wq pasid =>
      refine history_close ih ?_ taken
      simp only [step, Option.ite_none_right_eq_some] at taken
      exact taken.1.2
    | closer i => exact history_closer ok ih taken

theorem Inv.entry_of_outcome (ok : Inv size s) {k : Nat} {x : Entry × Outcome}
    (at_ : s.outcomes[k]? = some x) : s.logged[k]? = some x.1 := by
  have handled : k < s.outcomes.length := (List.getElem?_eq_some_iff.mp at_).1
  have mapped := congrArg (fun l => l[k]?) ok.entries
  simp only [List.getElem?_map, at_, Option.map_some, List.getElem?_take, handled, if_true] at mapped
  exact mapped.symm

/-- The entries are handled once each and in the order in which they were logged; an entry is
passed over exactly when its process has begun to close its queue after it was logged and before
it was handled; and when the interrupt thread has nothing left to do all entries are handled. -/
theorem log_exact (pos : 0 < size) (run : Run size h s) :
    s.outcomes.map Prod.fst = s.logged.take s.outcomes.length ∧
      (∀ k x, s.outcomes[k]? = some x →
        (x.2 = .skipped ↔ ClosedOver h x.1.wqIdx x.1.pasid k)) ∧
      (s.misc = .idle → s.cause = false → s.outcomes.length = s.logged.length) := by
  have ok := inv_of_run pos run
  have past := history_of_run pos run
  refine ⟨ok.entries, ?_, ?_⟩
  · intro k x at_
    have handled : k < s.outcomes.length := (List.getElem?_eq_some_iff.mp at_).1
    have entry := ok.entry_of_outcome at_
    rw [ok.skipped k x at_]
    constructor
    · exact fun member => past.found k member x.1 entry
    · intro closed
      rcases past.marked k x.1 entry closed with member | ⟨i, h', t', pos, upto, at', from_, _⟩
      · exact member
      · obtain ⟨_, _, le, _⟩ := ok.marking _ _ _ _ _ _ _ at'
        omega
  · intro idle cause
    rcases Nat.lt_or_eq_of_le ok.handled with waiting | all
    · simp [ok.idle idle waiting] at cause
    · exact all

def reopened : List Action :=
  [.log ⟨0x1a, 0, 1, true⟩, .log ⟨0x1a, 0, 2, true⟩, .close 0 0 1] ++ List.replicate 5 (.closer 0) ++
    List.replicate 7 (.misc true) ++ [.log ⟨0x1a, 0, 1, true⟩] ++ List.replicate 6 (.misc true)

theorem log_exact_reopened :
    ∃ h s, Run 4 h s ∧ h.map Prod.snd = reopened.reverse ∧
      (s.outcomes.map Prod.fst = s.logged.take s.outcomes.length ∧
        (∀ k x, s.outcomes[k]? = some x →
          (x.2 = .skipped ↔ ClosedOver h x.1.wqIdx x.1.pasid k)) ∧
        (s.misc = .idle → s.cause = false → s.outcomes.length = s.logged.length)) := by
  obtain ⟨h, run, labels⟩ := Machine.run_of_exec (rfl : Machine.exec (step 4) reopened initial = some _)
  exact ⟨h, _, run, labels, log_exact (by decide) run⟩

/-- Once a process has closed its queue no work runs for what was logged before. -/
theorem closed_silent (pos : 0 < size) (run : Run size h s) {s' : State} {w : Work}
    (ran : (s', Action.run w) ∈ h) {c : Closed} (closed : c ∈ s'.closed)
    (wq : w.entry.wqIdx = c.wq) (pasid : w.entry.pasid = c.pasid) :
    s'.logged[w.pos]? = some w.entry ∧ c.upto ≤ w.pos := by
  obtain ⟨h', t, before, taken⟩ := run.of_mem ran
  have ok := inv_of_run pos before
  simp only [step, Option.ite_none_right_eq_some] at taken
  refine ⟨?_, (ok.closed c closed).2.2 w taken.1 wq pasid⟩
  exact ok.entry_of_outcome (ok.works w taken.1)

theorem closed_silent_reopened :
    ∃ h s s', Run 4 h s ∧ (s', Action.run ⟨2, ⟨0x1a, 0, 1, true⟩⟩) ∈ h ∧
      ⟨0, 1, 2⟩ ∈ s'.closed ∧
        (s'.logged[2]? = some ⟨0x1a, 0, 1, true⟩ ∧ 2 ≤ 2) := by
  obtain ⟨h, run, -⟩ := Machine.run_of_exec (rfl : Machine.exec (step 4) reopened initial = some _)
  have next := run.next (rfl : step 4 _ (.run ⟨2, ⟨0x1a, 0, 1, true⟩⟩) = some _)
  refine ⟨_, _, _, next, List.mem_cons_self, List.mem_cons_self, ?_⟩
  exact closed_silent (c := ⟨0, 1, 2⟩) (by decide) next List.mem_cons_self List.mem_cons_self rfl rfl

end DsaTest.Driver.EventLog
