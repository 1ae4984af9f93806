import DsaTest.Protocol.State

/-! Everything that one step of the protocol can do. The invariants are proved
from this relation; only the inversion below unfolds the interpreter. -/
namespace DsaTest.Protocol

variable {cfg : Config} {s t : State} {a : Action}

/-- Steps of `dsa_copy` that change nothing but its own position. -/
inductive MainControl (s : State) : MainPc → Prop
  | finish : s.main = .visit → s.todo = [] → MainControl s .waitWakeup
  | running : s.main = .testExecution → s.threadExecution = true → MainControl s .visit
  | idle : s.main = .testExecution → s.threadExecution = false → MainControl s .setExecution
  | woken : s.main = .wakeUp → MainControl s .visit
  | sawWakeup : s.main = .waitWakeup → s.threadWakeup = true → MainControl s .clearExecution
  | sawCompletion : s.main = .waitCompletion → s.completionStatus ≠ 0 → MainControl s .done

/-- Steps of the thread that change nothing but its own position. -/
inductive ThreadControl (cfg : Config) (s : State) : ThreadPc → Prop
  | wake : s.thread = .waitExecution → s.threadExecution = true → ThreadControl cfg s .setWakeup
  | enter : s.thread = .guard → s.pollEntry < cfg.totalEntries → s.idxdDescLists ≠ [] →
      ThreadControl cfg s .scan
  | leave : s.thread = .guard → ¬ (s.pollEntry < cfg.totalEntries ∧ s.idxdDescLists ≠ []) →
      ThreadControl cfg s .drained
  | scan : s.thread = .scan →
      ThreadControl cfg s (advanceTo s.idxdDescLists s.idxdDescLists.head?)
  | marked {pos n} : s.thread = .visit pos n → (s.entry pos).completion = true →
      ThreadControl cfg s (.retire pos n [])
  | unmarked {pos n} : s.thread = .visit pos n → (s.entry pos).completion = false →
      ThreadControl cfg s (.testSuccess pos n)
  | missing {pos n} : s.thread = .testSuccess pos n → (s.entry pos).desc = none →
      ThreadControl cfg s .oops
  | missingAgain {pos n} : s.thread = .testError pos n → (s.entry pos).desc = none →
      ThreadControl cfg s .oops
  | success {pos n d} : s.thread = .testSuccess pos n → (s.entry pos).desc = some d →
      s.status d = 1 →
      ThreadControl cfg s (.retire pos n (successBranch cfg.variant (s.entry pos).batchInfo))
  | notSuccess {pos n d} : s.thread = .testSuccess pos n → (s.entry pos).desc = some d →
      s.status d ≠ 1 → ThreadControl cfg s (.testError pos n)
  | error {pos n d} : s.thread = .testError pos n → (s.entry pos).desc = some d →
      1 < s.status d →
      ThreadControl cfg s (.retire pos n (errorBranch cfg.variant (s.entry pos).batchInfo))
  | notError {pos n d} : s.thread = .testError pos n → (s.entry pos).desc = some d →
      ¬ 1 < s.status d → ThreadControl cfg s (.advance n)
  | keep {pos n} : s.thread = .retire pos n [] → s.threadExecution = true →
      ThreadControl cfg s (.advance n)
  | drop {pos n} : s.thread = .retire pos n [] → s.threadExecution = false →
      ThreadControl cfg s (.unlink pos n unlinkBranch)
  | unlinked {pos n} : s.thread = .unlink pos n [] → ThreadControl cfg s (.advance n)
  | advance {n} : s.thread = .advance n → ThreadControl cfg s (advanceTo s.idxdDescLists n)
  | drained : s.thread = .drained → s.threadExecution = false → s.idxdDescLists = [] →
      ThreadControl cfg s .setStatus
  | again : s.thread = .drained → ¬ (s.threadExecution = false ∧ s.idxdDescLists = []) →
      ThreadControl cfg s .guard
  | rewake : s.thread = .waitAgain → s.threadExecution = true → ThreadControl cfg s .guard

inductive Move (cfg : Config) (s : State) : Action → State → Prop
  | alloc {r k rest index} : s.main = .visit → s.todo = (r, k) :: rest →
      index < cfg.numDescs k → s.holder (k, index) = none →
      Move cfg s (.allocDesc index) { s with
        main := .append k (cfg.batched k) (some (k, index))
        todo := rest
        holder := Function.update s.holder (k, index) (some s.count)
        status := Function.update s.status (k, index) 0 }
  | createNull {r k rest cause} : s.main = .visit → s.todo = (r, k) :: rest →
      cfg.batched k = false →
      Move cfg s (.createFails cause) { s with main := .append k false none, todo := rest }
  | createOops {cause} : s.main = .visit →
      Move cfg s (.createFails cause) { s with main := .oops, leaked := s.leaked + 3 }
  | append {k batchInfo desc} : s.main = .append k batchInfo desc →
      Move cfg s .main (appendEntry s k batchInfo desc)
  | submitNull {e} : s.main = .submit e → (s.entry e).desc = none →
      Move cfg s .main { s with main := .oops }
  | accept {e d} : s.main = .submit e → (s.entry e).desc = some d →
      Move cfg s .main (acceptDesc s e d)
  | reject {e} : s.main = .submit e → (s.entry e).desc ≠ none →
      Move cfg s .submitFails { s with main := .testExecution }
  | setExecution : s.main = .setExecution →
      Move cfg s .main { s with main := .wakeUp, threadExecution := true }
  | clearExecution : s.main = .clearExecution →
      Move cfg s .main { s with main := .waitCompletion, threadExecution := false }
  | mainControl {pc} : MainControl s pc → Move cfg s .main { s with main := pc }
  | setWakeup : s.thread = .setWakeup →
      Move cfg s .thread { s with thread := .guard, threadWakeup := true }
  | retire {pos n stmt rest} : s.thread = .retire pos n (stmt :: rest) →
      Move cfg s .thread { execStmt s pos stmt with thread := .retire pos n rest }
  | unlink {pos n stmt rest} : s.thread = .unlink pos n (stmt :: rest) →
      Move cfg s .thread { execStmt s pos stmt with thread := .unlink pos n rest }
  | setStatus : s.thread = .setStatus →
      Move cfg s .thread { s with
        thread := .clearWakeup
        completionStatus := if s.completionError then 2 else 1 }
  | clearWakeup : s.thread = .clearWakeup →
      Move cfg s .thread { s with thread := .waitAgain, threadWakeup := false }
  | threadControl {pc} : ThreadControl cfg s pc → Move cfg s .thread { s with thread := pc }
  | answer {d status} : s.busy d = true → status ≠ 0 →
      Move cfg s (.device d status) { s with
        status := Function.update s.status d status
        busy := Function.update s.busy d false
        entry := answered s d status }

theorem move_of_mainStep (h : mainStep cfg s a = some t) : Move cfg s a t := by
  unfold mainStep at h
  split at h
  case h_1 index hm =>
    split at h
    · rename_i r k rest htodo
      unfold allocDesc at h
      split at h
      · rename_i ok
        cases h
        simpa [htodo] using Move.alloc hm htodo ok.1 ok.2
      · contradiction
    · contradiction
  case h_2 cause hm =>
    split at h
    · rename_i r k rest htodo
      unfold createFails at h
      split at h
      · split at h
        · contradiction
        · cases h
          exact .createOops hm
      · rename_i single
        cases h
        simpa [htodo] using Move.createNull hm htodo (by simpa using single)
    · contradiction
  case h_3 hm =>
    split at h
    · cases h
      exact .mainControl (.finish hm ‹_›)
    · contradiction
  case h_4 hm =>
    cases h
    exact .append hm
  case h_5 e hm =>
    split at h
    · cases h
      exact .submitNull hm ‹_›
    · cases h
      exact .accept hm ‹_›
  case h_6 e hm =>
    split at h
    · contradiction
    · cases h
      exact .reject hm ‹_›
  case h_7 hm =>
    split at h
    · cases h
      exact .mainControl (.running hm ‹_›)
    · rename_i idle
      cases h
      exact .mainControl (.idle hm (Bool.eq_false_iff.mpr idle))
  case h_8 hm =>
    cases h
    exact .setExecution hm
  case h_9 hm =>
    cases h
    exact .mainControl (.woken hm)
  case h_10 hm =>
    split at h
    · cases h
      exact .mainControl (.sawWakeup hm ‹_›)
    · contradiction
  case h_11 hm =>
    cases h
    exact .clearExecution hm
  case h_12 hm =>
    split at h
    · cases h
      exact .mainControl (.sawCompletion hm ‹_›)
    · contradiction
  case h_13 => contradiction

theorem move_of_threadStep (h : threadStep cfg s = some t) : Move cfg s .thread t := by
  unfold threadStep at h
  split at h
  case h_1 ht =>
    split at h
    · cases h
      exact .threadControl (.wake ht ‹_›)
    · contradiction
  case h_2 ht =>
    cases h
    exact .setWakeup ht
  case h_3 ht =>
    split at h
    · rename_i open'
      cases h
      exact .threadControl (.enter ht open'.1 open'.2)
    · cases h
      exact .threadControl (.leave ht ‹_›)
  case h_4 ht =>
    cases h
    exact .threadControl (.scan ht)
  case h_5 pos n ht =>
    split at h
    · cases h
      exact .threadControl (.marked ht ‹_›)
    · rename_i unmarked
      cases h
      exact .threadControl (.unmarked ht (Bool.eq_false_iff.mpr unmarked))
  case h_6 pos n ht =>
    split at h
    · cases h
      exact .threadControl (.missing ht ‹_›)
    · split at h
      · cases h
        exact .threadControl (.success ht ‹_› ‹_›)
      · cases h
        exact .threadControl (.notSuccess ht ‹_› ‹_›)
  case h_7 pos n ht =>
    split at h
    · cases h
      exact .threadControl (.missingAgain ht ‹_›)
    · split at h
      · cases h
        exact .threadControl (.error ht ‹_› ‹_›)
      · cases h
        exact .threadControl (.notError ht ‹_› ‹_›)
  case h_8 pos n stmt rest ht =>
    cases h
    exact .retire ht
  case h_9 pos n ht =>
    split at h
    · cases h
      exact .threadControl (.keep ht ‹_›)
    · rename_i idle
      cases h
      exact .threadControl (.drop ht (Bool.eq_false_iff.mpr idle))
  case h_10 pos n stmt rest ht =>
    cases h
    exact .unlink ht
  case h_11 pos n ht =>
    cases h
    exact .threadControl (.unlinked ht)
  case h_12 n ht =>
    cases h
    exact .threadControl (.advance ht)
  case h_13 ht =>
    split at h
    · rename_i empty
      cases h
      exact .threadControl (.drained ht empty.1 empty.2)
    · cases h
      exact .threadControl (.again ht ‹_›)
  case h_14 ht =>
    cases h
    exact .setStatus ht
  case h_15 ht =>
    cases h
    exact .clearWakeup ht
  case h_16 ht =>
    split at h
    · cases h
      exact .threadControl (.rewake ht ‹_›)
    · contradiction
  case h_17 => contradiction

/-- Inversion of the interpreter: every step is one of the moves. -/
theorem move_of_step (h : step cfg s a = some t) : Move cfg s a t := by
  unfold step at h
  split at h
  · exact move_of_threadStep h
  · unfold deviceStep at h
    split at h
    · rename_i ok
      cases h
      exact .answer ok.1 ok.2
    · contradiction
  · exact move_of_mainStep h

end DsaTest.Protocol
