import DsaTest.Protocol.Entries

/-! The stages of all entries are preserved by every step. -/
namespace DsaTest.Protocol

open Stmt

variable {cfg : Config} {s t : State} {a : Action}

theorem EntriesOk.alloc_step (ok : EntriesOk cfg s)
    (idle : ∀ k batchInfo d, s.main ≠ .append k batchInfo (some d)) {k index : Nat}
    (free : s.holder (k, index) = none) (batchInfo : Bool) (todo : List (Nat × Nat)) :
    EntriesOk cfg { s with
      main := .append k batchInfo (some (k, index))
      todo := todo
      holder := Function.update s.holder (k, index) (some s.count)
      status := Function.update s.status (k, index) 0 } where
  entries := by
    intro e old
    refine (ok.entries e old).frame rfl ?_ Iff.rfl fun _ _ _ _ answered => answered.progress
    intro d _ held
    have other : d ≠ (k, index) := by
      rintro rfl
      simp [free] at held
    simp [other, held]
  sorted := ok.sorted
  below := ok.below
  held := by
    intro d e held
    by_cases same : d = (k, index)
    · subst same
      simp only [Function.update_self, Option.some.injEq] at held
      exact .inr ⟨held.symm, k, batchInfo, rfl⟩
    · simp only [Function.update_of_ne same] at held
      rcases ok.held d e held with old | ⟨_, k', batchInfo', at_⟩
      · exact .inl old
      · exact absurd at_ (idle k' batchInfo' d)
  pending := by
    rintro _ _ _ ⟨⟩
    simp
  sent := ok.sent
  here := ok.here
  next := ok.next
  worked := ok.worked
  testing := ok.testing

theorem EntriesOk.waiting_of (ok : EntriesOk cfg s) {e : Nat} {d : Slot} (old : e < s.count)
    (desc : (s.entry e).desc = some d)
    (unanswered : (s.entry e).accepted = false ∨ (s.entry e).trace = []) :
    d.1 = (s.entry e).wq ∧ Waiting s e d := by
  cases ok.entries e old with
  | missing none => simp [none] at desc
  | answered _ _ _ _ _ answered => simp [answered.accepted, answered.trace] at unanswered
  | waiting d' desc' wq waiting =>
    rw [desc, Option.some.injEq] at desc'
    exact desc' ▸ ⟨wq, waiting⟩

theorem Waiting.slot_ne {e i : Nat} {d d' : Slot} (waiting : Waiting s e d)
    (held : s.holder d' = some i) (other : i ≠ e) : d' ≠ d := by
  rintro rfl
  exact other (Option.some.inj (held.symm.trans waiting.held))

theorem EntriesOk.pending_idle (ok : EntriesOk cfg s) {k : Nat} {batchInfo : Bool} {d : Slot}
    (at_ : s.main = .append k batchInfo (some d)) : s.busy d = false := by
  rw [Bool.eq_false_iff]
  intro busy
  obtain ⟨e, old, desc, untouched, _⟩ := ok.sent d busy
  obtain ⟨held, _⟩ := ok.pending k batchInfo d at_
  have waiting := (ok.waiting_of old desc (.inr untouched)).2
  exact waiting.slot_ne held (Nat.ne_of_gt old) rfl

theorem EntriesOk.append_step (ok : EntriesOk cfg s) {k : Nat} {batchInfo : Bool}
    {desc : Option Slot} (at_ : s.main = .append k batchInfo desc) :
    EntriesOk cfg (appendEntry s k batchInfo desc) where
  entries := by
    intro e old
    by_cases new : e = s.count
    · subst new
      cases desc with
      | none =>
        exact .missing (by simp [appendEntry]) (by simp [appendEntry]) (by simp [appendEntry])
          (by simp [appendEntry]) (by simp [appendEntry])
      | some d =>
        obtain ⟨held, status, wq⟩ := ok.pending k batchInfo d at_
        have busy := ok.pending_idle at_
        exact .waiting d (by simp [appendEntry]) (by simp [appendEntry, wq])
          ⟨by simp [appendEntry], by simp [appendEntry], held, status,
            by simp [appendEntry, busy], by simp [appendEntry]⟩
    · have before : e < s.count := by
        have : e < s.count + 1 := old
        omega
      refine (ok.entries e before).frame (by simp [appendEntry, new])
        (fun _ _ held => ⟨held, rfl, rfl⟩) (by simp [appendEntry, new]) ?_
      intro d status done _ answered
      exact answered.progress
  sorted := by
    refine List.pairwise_append.mpr ⟨ok.sorted, List.pairwise_singleton _ _, ?_⟩
    intro e member e' new
    rw [List.mem_singleton] at new
    exact new ▸ ok.below e member
  below := by
    intro e member
    simp only [appendEntry, List.mem_append, List.mem_singleton] at member ⊢
    rcases member with old | rfl
    · exact Nat.lt_succ_of_lt (ok.below e old)
    · exact Nat.lt_succ_self _
  held := by
    intro d e held
    left
    rcases ok.held d e held with ⟨old, desc', notYet⟩ | ⟨rfl, k', batchInfo', at_'⟩
    · simp [appendEntry, Nat.ne_of_lt old, desc', notYet, Nat.lt_succ_of_lt old]
    · rw [at_, MainPc.append.injEq] at at_'
      simp [appendEntry, at_'.2.2]
  pending := by simp [appendEntry]
  sent := by
    intro d busy
    obtain ⟨e, old, sent⟩ := ok.sent d busy
    exact ⟨e, Nat.lt_succ_of_lt old, by simpa [appendEntry, Nat.ne_of_lt old] using sent⟩
  here := by
    intro pos current
    obtain ⟨old, linked⟩ := ok.here pos current
    exact ⟨Nat.lt_succ_of_lt old, fun still => List.mem_append_left _ (linked still)⟩
  next := by
    intro q following
    obtain ⟨member, after⟩ := ok.next q following
    exact ⟨List.mem_append_left _ member, after⟩
  worked := by
    intro pos working
    have old : pos < s.count := by
      refine (ok.here pos ?_).1
      cases h : s.thread <;> simp_all [appendEntry, ThreadPc.worksOn, ThreadPc.current]
    simpa [appendEntry, Nat.ne_of_lt old] using ok.worked pos working
  testing := by
    intro pos testing
    have old : pos < s.count := by
      refine (ok.here pos ?_).1
      cases h : s.thread <;> simp_all [appendEntry, ThreadPc.testing, ThreadPc.current]
    simpa [appendEntry, Nat.ne_of_lt old] using ok.testing pos testing

theorem EntriesOk.accept_step (ok : EntriesOk cfg s) {e : Nat} {d : Slot}
    (at_ : s.main = .submit e) (old : e < s.count) (desc : (s.entry e).desc = some d)
    (fresh : (s.entry e).accepted = false) : EntriesOk cfg (acceptDesc s e d) := by
  obtain ⟨wq, waiting⟩ := ok.waiting_of old desc (.inl fresh)
  have idle (d' : Slot) (k : Nat) (batchInfo : Bool) : s.main ≠ .append k batchInfo (some d') := by
    simp [at_]
  have wqs (i : Nat) : ((acceptDesc s e d).entry i).desc = (s.entry i).desc :=
    modifyAt_same Entry.desc (by intro; rfl) _ _ _
  have traces (i : Nat) : ((acceptDesc s e d).entry i).trace = (s.entry i).trace :=
    modifyAt_same Entry.trace (by intro; rfl) _ _ _
  have marks (i : Nat) : ((acceptDesc s e d).entry i).completion = (s.entry i).completion :=
    modifyAt_same Entry.completion (by intro; rfl) _ _ _
  exact
    { entries := by
        intro i before
        by_cases same : i = e
        · subst same
          refine .waiting d ((wqs i).trans desc) (by simp [acceptDesc, wq])
            ⟨(traces i).trans waiting.trace, (marks i).trans waiting.completion, waiting.held,
              waiting.status, by simp [acceptDesc], waiting.listed⟩
        · refine (ok.entries i before).frame (by simp [acceptDesc, modifyAt_ne _ _ same]) ?_ Iff.rfl
            fun _ _ _ _ answered => answered.progress
          intro d' _ held
          exact ⟨held, rfl, by simp [acceptDesc, waiting.slot_ne held same]⟩
      sorted := ok.sorted
      below := ok.below
      held := by
        intro d' i held
        rw [wqs, traces]
        rcases ok.held d' i held with before | ⟨_, k, batchInfo, pending⟩
        · exact .inl before
        · exact absurd pending (idle d' k batchInfo)
      pending := by simp [acceptDesc]
      sent := by
        intro d' busy
        by_cases same : d' = d
        · subst same
          exact ⟨e, old, (wqs e).trans desc, (traces e).trans waiting.trace, by simp [acceptDesc]⟩
        · obtain ⟨i, before, desc', trace, accepted⟩ :=
            ok.sent d' (by simpa [acceptDesc, same] using busy)
          refine ⟨i, before, (wqs i).trans desc', (traces i).trans trace, ?_⟩
          by_cases here : i = e
          · subst here
            simp [acceptDesc]
          · simpa [acceptDesc, modifyAt_ne _ _ here] using accepted
      here := ok.here
      next := ok.next
      worked := by
        intro pos working
        rw [traces]
        exact ok.worked pos working
      testing := by
        intro pos testing
        rw [marks]
        exact ok.testing pos testing }

theorem EntriesOk.answer_step (ok : EntriesOk cfg s) {d : Slot} {status : Nat}
    (busy : s.busy d = true) (final : status ≠ 0) :
    EntriesOk cfg { s with
      status := Function.update s.status d status
      busy := Function.update s.busy d false
      entry := answered s d status } := by
  obtain ⟨e, old, desc, untouched, accepted⟩ := ok.sent d busy
  obtain ⟨wq, waiting⟩ := ok.waiting_of old desc (.inr untouched)
  have entries : answered s d status =
      modifyAt s.entry e fun v => { v with trace := v.trace ++ [.written status] } := by
    simp [answered, waiting.held]
  have away : s.thread.worksOn ≠ some e := fun working => ok.worked e working untouched
  rw [entries]
  have traces {i : Nat} (other : i ≠ e) :
      (modifyAt s.entry e (fun v => { v with trace := v.trace ++ [.written status] }) i) =
        s.entry i := modifyAt_ne _ _ other
  exact
    { entries := by
        intro i before
        by_cases same : i = e
        · subst same
          refine .answered d status [] (by simp [desc]) (by simp [wq])
            ⟨final, by simp [accepted], by simp [untouched], by simp [waiting.completion],
              fun _ => ⟨waiting.held, by simp, by simp⟩, by simp [waiting.listed], ?_⟩
          exact (progress_idle away).mpr (.inl rfl)
        · refine (ok.entries i before).frame (traces same) ?_ Iff.rfl
            fun _ _ _ _ answered => answered.progress
          intro d' _ held
          simp [held, waiting.slot_ne held same]
      sorted := ok.sorted
      below := ok.below
      held := by
        intro d' i held
        rcases ok.held d' i held with ⟨before, desc', notYet⟩ | pending
        · left
          by_cases same : i = e
          · subst same
            simp [before, desc', notYet]
          · simp only [traces same]
            exact ⟨before, desc', notYet⟩
        · exact .inr pending
      pending := by
        intro k batchInfo d' at_
        obtain ⟨held, status', wq'⟩ := ok.pending k batchInfo d' at_
        have other : d' ≠ d := by
          rintro rfl
          simp [ok.pending_idle at_] at busy
        exact ⟨held, by simp [other, status'], wq'⟩
      sent := by
        intro d' busy'
        have other : d' ≠ d := by
          rintro rfl
          simp at busy'
        obtain ⟨i, before, desc', trace, accepted'⟩ := ok.sent d' (by simpa [other] using busy')
        have elsewhere : i ≠ e := by
          rintro rfl
          exact other (Option.some.inj (desc'.symm.trans desc))
        refine ⟨i, before, ?_⟩
        simp only [traces elsewhere]
        exact ⟨desc', trace, accepted'⟩
      here := ok.here
      next := ok.next
      worked := by
        intro pos working
        have elsewhere : pos ≠ e := fun same => away (same ▸ working)
        simp only [traces elsewhere]
        exact ok.worked pos working
      testing := by
        intro pos testing
        exact (modifyAt_same Entry.completion (by intro; rfl) _ _ _).trans (ok.testing pos testing) }

section Exec

variable {pos : Nat} {stmt : Stmt} {rest : List Stmt} {th : ThreadPc}

/-- The thread position `th` is `s.thread` with its next statement behind it. -/
structure Behind (s : State) (th : ThreadPc) (pos : Nat) (stmt : Stmt) (rest : List Stmt) :
    Prop where
  before : s.thread.worksOn = some pos ∧ s.thread.remaining = stmt :: rest
  after : th.worksOn = some pos ∧ th.remaining = rest
  unlinking : th.unlinking = s.thread.unlinking
  next : th.next = s.thread.next
  current : s.thread.current = some pos ∧ th.current = some pos
  testing : th.testing = none

theorem Answered.fresh {d : Slot} {status : Nat} {done : List Stmt}
    (ok : Answered cfg s pos d status done) (working : s.thread.worksOn = some pos)
    (remaining : s.thread.remaining = stmt :: rest) : stmt ∉ done := by
  have progress := ok.progress
  rw [Progress, if_pos working, remaining] at progress
  have life : (done ++ stmt :: rest).Nodup := by
    have nodup := life_nodup cfg.variant (s.entry pos).batchInfo status
    rw [progress]
    split
    · exact nodup
    · simpa using nodup.of_append_left
  intro member
  exact (List.nodup_append.mp life).2.2 stmt member stmt List.mem_cons_self rfl

theorem Answered.exec_step {d : Slot} {status : Nat} {done : List Stmt}
    (ok : Answered cfg s pos d status done)
    (sorted : s.idxdDescLists.Pairwise (· < ·)) (behind : Behind s th pos stmt rest) :
    Answered cfg { execStmt s pos stmt with thread := th } pos d status (done ++ [stmt]) := by
  have progress := ok.progress
  rw [Progress, if_pos behind.before.1, behind.before.2] at progress
  exact
    { final := ok.final
      accepted := by simp [execStmt, ok.accepted]
      trace := by simp [execStmt, ok.trace]
      completion := by
        by_cases same : stmt = setCompletion
        · simp [execStmt, same]
        · simp [execStmt, same, Ne.symm same, ok.completion]
      held := by
        intro notYet
        simp only [List.mem_append, List.mem_singleton, not_or] at notYet
        have other : stmt ≠ descComplete := Ne.symm notYet.2
        simpa [execStmt, other] using ok.held notYet.1
      listed := by
        by_cases same : stmt = listDel
        · have nodup : s.idxdDescLists.Nodup := sorted.imp fun below => Nat.ne_of_lt below
          simp [execStmt, same, nodup.mem_erase_iff]
        · simp [execStmt, same, Ne.symm same, ok.listed]
      progress := by
        rw [Progress, if_pos behind.after.1, behind.after.2, behind.unlinking]
        simpa [execStmt] using progress }

theorem execStmt_other {e : Nat} (other : e ≠ pos) : (execStmt s pos stmt).entry e = s.entry e := by
  simp [execStmt, modifyAt_ne _ _ other]

theorem execStmt_desc (e : Nat) : ((execStmt s pos stmt).entry e).desc = (s.entry e).desc :=
  modifyAt_same Entry.desc (by intro; rfl) _ _ _

theorem execStmt_holder {d : Slot} (desc : (s.entry pos).desc = some d) (d' : Slot) (e : Nat) :
    (execStmt s pos stmt).holder d' = some e ↔
      s.holder d' = some e ∧ ¬ (stmt = descComplete ∧ d' = d) := by
  by_cases returns : stmt = descComplete
  · by_cases same : d' = d
    · simp [execStmt, returns, release, desc, same]
    · simp [execStmt, returns, release, desc, same]
  · simp [execStmt, returns]

theorem execStmt_listed {e : Nat} (other : e ≠ pos) :
    e ∈ (execStmt s pos stmt).idxdDescLists ↔ e ∈ s.idxdDescLists := by
  by_cases same : stmt = listDel
  · simp [execStmt, same, List.mem_erase_of_ne other]
  · simp [execStmt, same]

theorem execStmt_sublist : (execStmt s pos stmt).idxdDescLists.Sublist s.idxdDescLists := by
  by_cases same : stmt = listDel
  · simpa [execStmt, same] using List.erase_sublist
  · simp [execStmt, same]

theorem Answered.not_listDel {d : Slot} {status : Nat} {done : List Stmt}
    (ok : Answered cfg s pos d status done) (behind : Behind s th pos stmt rest)
    (linked : s.thread.unlinking = false) : stmt ≠ listDel := by
  rintro rfl
  have progress := ok.progress
  rw [Progress, if_pos behind.before.1, behind.before.2, linked] at progress
  simp only [Bool.false_eq_true, ↓reduceIte, List.append_nil] at progress
  apply (mem_branchOf cfg.variant (s.entry pos).batchInfo status).2.2.2
  rw [← progress]
  simp

theorem EntriesOk.exec_step (ok : EntriesOk cfg s) (behind : Behind s th pos stmt rest) :
    EntriesOk cfg { execStmt s pos stmt with thread := th } := by
  have old := (ok.here pos behind.current.1).1
  obtain ⟨d, status, done, desc, wq, answered⟩ :=
    ok.answered_of_trace old (ok.worked pos behind.before.1)
  have fresh := answered.fresh behind.before.1 behind.before.2
  have answered' := answered.exec_step ok.sorted behind
  have kept {d' : Slot} {e : Nat} (holds : s.holder d' = some e) (other : e ≠ pos) :
      (execStmt s pos stmt).holder d' = some e := by
    refine (execStmt_holder desc d' e).mpr ⟨holds, ?_⟩
    rintro ⟨returns, rfl⟩
    have own : s.holder d' = some pos := (answered.held (returns ▸ fresh)).1
    exact other (Option.some.inj (holds.symm.trans own))
  have alone {pos' : Nat} (there : some pos = some pos') : pos = pos' := Option.some.inj there
  exact
    { entries := by
        intro e before
        by_cases same : e = pos
        · subst same
          exact .answered d status (done ++ [stmt]) ((execStmt_desc e).trans desc)
            (wq.trans (modifyAt_same Entry.wq (by intro; rfl) _ _ _).symm) answered'
        · refine (ok.entries e before).frame (execStmt_other same) ?_ (execStmt_listed same) ?_
          · exact fun d' _ holds => ⟨kept holds same, rfl, rfl⟩
          · intro d' status' done' _ answered
            refine (progress_idle (by simpa [behind.after.1] using Ne.symm same)).mpr ?_
            exact answered.settled (by simpa [behind.before.1] using Ne.symm same)
      sorted := ok.sorted.sublist execStmt_sublist
      below := fun e member => ok.below e (execStmt_sublist.mem member)
      held := by
        intro d' e holds
        obtain ⟨holds, unreturned⟩ := (execStmt_holder desc d' e).mp holds
        rcases ok.held d' e holds with ⟨before, desc', notYet⟩ | pending
        · refine .inl ⟨before, (execStmt_desc e).trans desc', ?_⟩
          by_cases same : e = pos
          · subst same
            have other : stmt ≠ descComplete := by
              rintro rfl
              exact unreturned ⟨rfl, Option.some.inj (desc'.symm.trans desc)⟩
            simpa [execStmt, Ne.symm other] using notYet
          · simpa only [execStmt_other same] using notYet
        · exact .inr pending
      pending := by
        intro k batchInfo d' at_
        obtain ⟨holds, status', wq'⟩ := ok.pending k batchInfo d' at_
        exact ⟨kept holds (Nat.ne_of_gt old), status', wq'⟩
      sent := by
        intro d' busy
        obtain ⟨e, before, desc', untouched, accepted⟩ := ok.sent d' busy
        have elsewhere : e ≠ pos := by
          rintro rfl
          exact ok.worked e behind.before.1 untouched
        refine ⟨e, before, ?_⟩
        simp only [execStmt_other elsewhere]
        exact ⟨desc', untouched, accepted⟩
      here := by
        intro pos' current
        have same := alone (behind.current.2.symm.trans current)
        subst same
        refine ⟨old, fun linked => ?_⟩
        have linked' : s.thread.unlinking = false := behind.unlinking.symm.trans linked
        have listed := (ok.here pos behind.current.1).2 linked'
        simpa [execStmt, answered.not_listDel behind linked'] using listed
      next := by
        intro q following
        obtain ⟨member, after⟩ := ok.next q (behind.next.symm.trans following)
        have beyond := after pos behind.current.1
        refine ⟨(execStmt_listed (Nat.ne_of_gt beyond)).mpr member, ?_⟩
        intro pos' current
        have same := alone (behind.current.2.symm.trans current)
        exact same ▸ beyond
      worked := by
        intro pos' working
        have same := alone (behind.after.1.symm.trans working)
        subst same
        simp [execStmt]
      testing := by simp [behind.testing] }

end Exec

theorem entries_step (phase : PhaseOk cfg s) (ok : EntriesOk cfg s) (move : Move cfg s a t) :
    EntriesOk cfg t := by
  cases move
  case alloc at_ _ _ free => exact ok.alloc_step (by simp [at_]) free _ _
  case createNull at_ _ _ =>
    exact ok.main_frame (by simp [at_]) _ (by simp) _ _ _
  case createOops at_ => exact ok.main_frame (by simp [at_]) _ (by simp) _ _ _
  case append at_ => exact ok.append_step at_
  case submitNull at_ _ => exact ok.main_frame (by simp [at_]) _ (by simp) _ _ _
  case accept at_ desc =>
    obtain ⟨last, fresh⟩ := phase.submitting _ at_
    exact ok.accept_step at_ (by omega) desc fresh
  case reject at_ _ => exact ok.main_frame (by simp [at_]) _ (by simp) _ _ _
  case setExecution at_ => exact ok.main_frame (by simp [at_]) _ (by simp) _ _ _
  case clearExecution at_ => exact ok.main_frame (by simp [at_]) _ (by simp) _ _ _
  case mainControl pc control =>
    refine ok.main_frame (fun k batchInfo d at_ => ?_) pc (fun k batchInfo d at_ => ?_) _ _ _
    · cases control <;> simp_all
    · subst at_
      cases control
  case setWakeup at_ =>
    exact ok.quiet_step (allSettled_of_idle (by simp [at_, ThreadPc.worksOn])) _
      ⟨rfl, rfl, rfl, rfl⟩ _ _
  case retire pos n stmt rest at_ =>
    exact ok.exec_step ⟨by simp [at_, ThreadPc.worksOn, ThreadPc.remaining], ⟨rfl, rfl⟩,
      by simp [at_, ThreadPc.unlinking], by simp [at_, ThreadPc.next],
      by simp [at_, ThreadPc.current], rfl⟩
  case unlink pos n stmt rest at_ =>
    exact ok.exec_step ⟨by simp [at_, ThreadPc.worksOn, ThreadPc.remaining], ⟨rfl, rfl⟩,
      by simp [at_, ThreadPc.unlinking], by simp [at_, ThreadPc.next],
      by simp [at_, ThreadPc.current], rfl⟩
  case setStatus at_ | clearWakeup at_ =>
    exact ok.quiet_step (allSettled_of_idle (by simp [at_, ThreadPc.worksOn])) _
      ⟨rfl, rfl, rfl, rfl⟩ _ _
  case threadControl control => exact ok.control_step control
  case answer busy final => exact ok.answer_step busy final

end DsaTest.Protocol
