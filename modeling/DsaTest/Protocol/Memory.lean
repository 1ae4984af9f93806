import DsaTest.Protocol.Completion
import DsaTest.DataPath

/-! The protocol with the devices at work in memory: a device copies the bytes of the
descriptors that it has accepted one by one, in any order and mixed with everybody else's
steps, and reports success for a descriptor only when all its bytes are copied. -/
namespace DsaTest.Protocol

open Machine

/-- `left` is what the descriptor of each entry has still to copy, `moved` (ghost) what has
been copied, in order. -/
structure MemState where
  base : State
  left : Nat → List (Location × Location)
  moved : List (Location × Location)
  mem : Location → UInt8

inductive MemAction
  | step (a : Action)
  | move (e j : Nat)
  deriving DecidableEq, Repr

def memInitial (cfg : Config) (work : Nat → List (Location × Location)) (mem : Location → UInt8) :
    MemState := ⟨initial cfg, work, [], mem⟩

def State.carries (s : State) (e : Nat) : Bool :=
  (s.entry e).desc.elim false fun d => s.busy d && s.holder d = some e

/-- An answer of success for a descriptor with bytes left to copy. -/
def MemState.early (u : MemState) : Action → Bool
  | .device d status => status = 1 && (u.base.holder d).elim false fun e => !(u.left e).isEmpty
  | _ => false

def memStep (cfg : Config) (u : MemState) : MemAction → Option MemState
  | .step a => if u.early a then none else (step cfg u.base a).map fun s => { u with base := s }
  | .move e j =>
    if u.base.carries e then
      (u.left e)[j]?.map fun p =>
        { u with
          left := Function.update u.left e ((u.left e).eraseIdx j)
          moved := u.moved ++ [p]
          mem := Transfer.effect u.mem [p] }
    else none

abbrev MemRun (cfg : Config) (work : Nat → List (Location × Location)) (mem : Location → UInt8)
    (h : List (MemState × MemAction)) (u : MemState) : Prop :=
  Machine.Run (memStep cfg) (memInitial cfg work mem) h u

variable {cfg : Config} {s t : State} {a : Action} {u v : MemState}
  {work : Nat → List (Location × Location)} {mem : Location → UInt8}
  {h : List (MemState × MemAction)}

inductive MemMove (cfg : Config) (u : MemState) : MemAction → MemState → Prop
  | step {a : Action} {t : State} : u.early a = false → step cfg u.base a = some t →
      MemMove cfg u (.step a) { u with base := t }
  | move {e j : Nat} {p : Location × Location} : u.base.carries e = true → (u.left e)[j]? = some p →
      MemMove cfg u (.move e j) { u with
        left := Function.update u.left e ((u.left e).eraseIdx j)
        moved := u.moved ++ [p]
        mem := Transfer.effect u.mem [p] }

theorem memMove_of_step {a : MemAction} (taken : memStep cfg u a = some v) : MemMove cfg u a v := by
  unfold memStep at taken
  split at taken
  · split at taken
    · contradiction
    · rename_i a timely
      obtain ⟨t, stepped, rfl⟩ := Option.map_eq_some_iff.mp taken
      exact .step (Bool.eq_false_iff.mpr timely) stepped
  · split at taken
    · obtain ⟨p, found, rfl⟩ := Option.map_eq_some_iff.mp taken
      exact .move ‹_› found
    · contradiction

/-- Memory aside, a run of the devices is a run of the protocol. -/
theorem run_of_memRun (run : MemRun cfg work mem h u) : ∃ h', Run cfg h' u.base := by
  induction run with
  | start => exact ⟨[], .start⟩
  | next _ taken ih =>
    obtain ⟨h', before⟩ := ih
    cases memMove_of_step taken with
    | step _ stepped => exact ⟨_, before.next stepped⟩
    | move => exact ⟨_, before⟩

theorem exec_moves (cfg : Config) {e : Nat} (carries : u.base.carries e = true) :
    ∃ v, exec (memStep cfg) (List.replicate (u.left e).length (.move e 0)) u = some v ∧
      v.base = u.base ∧ v.left e = [] := by
  induction left : (u.left e).length generalizing u with
  | zero => exact ⟨u, rfl, rfl, List.eq_nil_of_length_eq_zero left⟩
  | succ n ih =>
    obtain ⟨p, rest, list⟩ := List.exists_cons_of_length_eq_add_one left
    obtain ⟨v, result, same, done⟩ := ih (u := { u with
      left := Function.update u.left e rest
      moved := u.moved ++ [p]
      mem := Transfer.effect u.mem [p] }) carries (by simpa [list] using left)
    refine ⟨v, ?_, same, done⟩
    rw [List.replicate_succ, exec, memStep, if_pos carries, list]
    simpa using result

/-- Every run of the protocol is a run of the devices, which can always copy in time. -/
theorem memRun_of_run (work : Nat → List (Location × Location)) (mem : Location → UInt8)
    {h : List (State × Action)} (run : Run cfg h s) :
    ∃ h' u, MemRun cfg work mem h' u ∧ u.base = s := by
  induction run with
  | start => exact ⟨[], _, .start, rfl⟩
  | @next h s a t before taken ih =>
    obtain ⟨h', u, run, rfl⟩ := ih
    have timely (u' : MemState) (h' : List (MemState × MemAction)) (run : MemRun cfg work mem h' u')
        (same : u'.base = u.base) (ok : u'.early a = false) :
        ∃ h'' v, MemRun cfg work mem h'' v ∧ v.base = t := by
      refine ⟨_, { u' with base := t }, run.next (a := .step a) ?_, rfl⟩
      simp [memStep, ok, same, taken]
    by_cases early : u.early a = true
    · cases a with
      | device d status =>
        cases held : u.base.holder d with
        | none => simp [MemState.early, held] at early
        | some e =>
          have carries : u.base.carries e = true := by
            cases move_of_step taken with
            | answer busy _ =>
              have ok := inv_of_run before
              obtain ⟨i, old, desc, untouched, _⟩ := ok.entries.sent d busy
              have mine := (ok.entries.waiting_of old desc (.inr untouched)).2.held
              rw [held, Option.some.injEq] at mine
              simp [State.carries, mine, desc, busy, held]
          obtain ⟨v, result, same, done⟩ := exec_moves cfg carries
          obtain ⟨more, run', _⟩ := run.append_exec _ result
          exact timely v _ run' same (by simp [MemState.early, same, held, done])
      | _ => simp [MemState.early] at early
    · exact timely u h' run rfl (Bool.eq_false_iff.mpr early)

theorem carries_below (ok : Inv cfg s) {e : Nat} (carries : s.carries e = true) : e < s.count := by
  unfold State.carries at carries
  cases desc : (s.entry e).desc with
  | none => simp [desc] at carries
  | some d =>
    simp only [desc, Option.elim_some, Bool.and_eq_true, decide_eq_true_eq] at carries
    obtain ⟨busy, held⟩ := carries
    obtain ⟨i, old, desc', untouched, _⟩ := ok.entries.sent d busy
    have mine := (ok.entries.waiting_of old desc' (.inr untouched)).2.held
    rw [held, Option.some.injEq] at mine
    exact mine ▸ old

theorem Move.written (move : Move cfg s a t) {e status : Nat}
    (seen : .written status ∈ (t.entry e).trace) :
    .written status ∈ (s.entry e).trace ∨ ∃ d, a = .device d status ∧ s.holder d = some e := by
  have ran (pos : Nat) (stmt : Stmt)
      (seen : .written status ∈ ((execStmt s pos stmt).entry e).trace) :
      .written status ∈ (s.entry e).trace := by
    by_cases here : e = pos
    · subst here
      simpa [execStmt] using seen
    · simpa [execStmt, modifyAt_ne _ _ here] using seen
  cases move
  case append =>
    by_cases last : e = s.count
    · simp [appendEntry, last] at seen
    · exact .inl (by simpa [appendEntry, last] using seen)
  case accept e' d _ _ =>
    left
    by_cases here : e = e'
    · subst here
      simpa [acceptDesc] using seen
    · simpa [acceptDesc, modifyAt_ne _ _ here] using seen
  case retire pos n stmt rest _ | unlink pos n stmt rest _ => exact .inl (ran pos stmt seen)
  case answer d status' _ _ =>
    cases held : s.holder d with
    | none => exact .inl (by simpa [answered, held] using seen)
    | some e' =>
      by_cases here : e = e'
      · subst here
        simp only [answered, held, modifyAt_self, List.mem_append, List.mem_singleton,
          Event.written.injEq] at seen
        rcases seen with before | rfl
        · exact .inl before
        · exact .inr ⟨d, rfl, held⟩
      · exact .inl (by simpa [answered, held, modifyAt_ne _ _ here] using seen)
  all_goals exact .inl seen

theorem flatMap_eraseIdx_perm {α : Type*} (f : Nat → List α) {l : List Nat} (nodup : l.Nodup)
    {e j : Nat} (member : e ∈ l) {x : α} (found : (f e)[j]? = some x) :
    (x :: l.flatMap (Function.update f e ((f e).eraseIdx j))).Perm (l.flatMap f) := by
  obtain ⟨inside, rfl⟩ := List.getElem?_eq_some_iff.mp found
  have others : (l.erase e).flatMap (Function.update f e ((f e).eraseIdx j)) =
      (l.erase e).flatMap f := by
    apply List.flatMap_congr
    intro i kept
    rw [Function.update_of_ne]
    rintro rfl
    exact nodup.not_mem_erase kept
  have front := List.perm_cons_erase member
  have after := front.flatMap_right (Function.update f e ((f e).eraseIdx j))
  have before := front.flatMap_right f
  rw [List.flatMap_cons, others, Function.update_self] at after
  rw [List.flatMap_cons] at before
  have here : ((f e)[j] :: (f e).eraseIdx j).Perm (f e) := List.getElem_cons_eraseIdx_perm inside
  exact ((after.cons _).trans (here.append_right _)).trans before.symm

structure MemOk (cfg : Config) (work : Nat → List (Location × Location)) (mem : Location → UInt8)
    (u : MemState) : Prop where
  mem_eq : u.mem = Transfer.run mem (u.moved.map fun p => [p])
  copied : (u.moved ++ (List.range cfg.visits.length).flatMap u.left).Perm
    ((List.range cfg.visits.length).flatMap work)
  finished : ∀ e, .written 1 ∈ (u.base.entry e).trace → u.left e = []

theorem memOk_initial : MemOk cfg work mem (memInitial cfg work mem) where
  mem_eq := rfl
  copied := List.Perm.refl _
  finished := by simp [memInitial, initial, blankEntry]

theorem memOk_step {a : MemAction} (inv : Inv cfg u.base) (ok : MemOk cfg work mem u)
    (move : MemMove cfg u a v) : MemOk cfg work mem v := by
  cases move with
  | @step a t timely taken =>
    refine ⟨ok.mem_eq, ok.copied, ?_⟩
    intro e seen
    rcases (move_of_step taken).written seen with before | ⟨d, rfl, held⟩
    · exact ok.finished e before
    · simpa [MemState.early, held] using timely
  | @move e j p carries found =>
    have old := carries_below inv carries
    have all := inv.phase.count_add
    have member : e ∈ List.range cfg.visits.length := List.mem_range.mpr (by omega)
    refine ⟨?_, ?_, ?_⟩
    · rw [ok.mem_eq, List.map_append]
      simp only [Transfer.run, List.foldl_append, List.map_cons, List.map_nil, List.foldl_cons,
        List.foldl_nil]
    · have moves := flatMap_eraseIdx_perm u.left List.nodup_range member found
      rw [List.append_assoc, List.singleton_append]
      exact (moves.append_left _).trans ok.copied
    · intro i seen
      have none := ok.finished i seen
      have other : i ≠ e := by
        rintro rfl
        simp [none] at found
      simp [Function.update_of_ne other, none]

theorem memOk_of_run (run : MemRun cfg work mem h u) : MemOk cfg work mem u := by
  induction run with
  | start => exact memOk_initial
  | next before taken ih =>
    obtain ⟨_, base⟩ := run_of_memRun before
    exact memOk_step (inv_of_run base) ih (memMove_of_step taken)

/-- When `dsa_copy` sees success, everything is copied, and nothing is copied twice. -/
theorem moved_all (run : MemRun cfg work mem h u) (done : u.base.main = .done)
    (success : u.base.completionStatus ≠ 2) :
    u.moved.Perm ((List.range cfg.visits.length).flatMap work) := by
  obtain ⟨_, base⟩ := run_of_memRun run
  have inv := inv_of_run base
  have ok := memOk_of_run run
  have written := inv.phase.done done
  obtain ⟨_, empty, idle⟩ := reported_state inv written
  have all := inv.phase.count_add
  rw [inv.phase.left (by simp [done, MainPc.left]), done] at all
  have finished : ∀ e ∈ List.range cfg.visits.length, u.left e = [] := by
    intro e member
    have old : e < u.base.count := by simpa [MainPc.pending, ← all] using member
    obtain ⟨status, final, trace⟩ := inv.entries.done_of_unlisted idle old (by simp [empty])
    have seen : .written status ∈ (u.base.entry e).trace := by simp [trace]
    have low : ¬ 1 < status := fun high =>
      success ((completionStatus_eq_two inv written).mpr ⟨e, old, status, seen, high⟩)
    have one : status = 1 := by omega
    exact ok.finished e (one ▸ seen)
  have nothing : (List.range cfg.visits.length).flatMap u.left = [] :=
    List.flatMap_eq_nil_iff.mpr finished
  simpa [nothing] using ok.copied

def workOf (sub : SubmitState) (bus : Nat → Nat → Location) (e : Nat) : List (Location × Location) :=
  sub.handed[e]?.elim [] fun h =>
    h.2.memmoves.flatMap fun m => m.copied.map (Prod.map (bus h.1) (bus h.1))

theorem flatMap_range_getElem? {α β : Type*} (l : List α) (f : α → List β) :
    ((List.range l.length).flatMap fun e => l[e]?.elim [] f) = l.flatMap f := by
  induction l with
  | nil => rfl
  | cons x l ih =>
    rw [List.length_cons, List.range_succ_eq_map, List.flatMap_cons, List.flatMap_map,
      List.flatMap_cons, ← ih]
    rfl

theorem workOf_flatMap (sub : SubmitState) (bus : Nat → Nat → Location) :
    (List.range sub.handed.length).flatMap (workOf sub bus) = (sub.transfers bus).flatten := by
  have whole := flatMap_range_getElem? sub.handed fun h =>
    h.2.memmoves.flatMap fun m => m.copied.map (Prod.map (bus h.1) (bus h.1))
  refine whole.trans ?_
  rw [SubmitState.transfers, List.flatten_eq_flatMap, List.flatMap_assoc]
  simp only [List.flatMap_map, id_eq]

theorem submitted_area {n k : Nat} (variant : Variant) (some_ : 0 < n) (tables : 0 < k)
    (draw : Nat → UInt32) (areas : Areas n) :
    ∃ st, vmallocToSgtable variant areas.env (randomArr n draw) n k = .ready st ∧
      ∀ (mappings : ∀ i : Fin k, QueueMapping st i) (grants : Nat → Option Grant),
        (∀ i, Willing (mappings i).queue) → (∀ i, grants i ≠ none) →
        ∃ sub, submitAll (queuesOf mappings) grants variant = some sub ∧
          (sub.transfers (busOf mappings)).flatten.Perm ((List.range n).flatMap areas.pageCopy) := by
  have found : ∀ side, ∀ p < n, areas.env.page side p ≠ none := by
    intro side p below
    simp [Areas.env, below]
  obtain ⟨st, ready⟩ := vmallocToSgtable_runs variant some_ tables (fun _ _ _ => rfl)
    fun side => (pageAt_randomArr areas.env draw side).mpr (found side)
  have inv := vmallocToSgtable_ready some_ tables ready
  refine ⟨st, ready, fun mappings grants willing granted => ?_⟩
  have each : ∀ q ∈ queuesOf mappings, Willing q ∧ q.Aligned := by
    intro q inside
    obtain ⟨i, same⟩ := List.mem_ofFn.mp inside
    rw [← same]
    exact ⟨willing i, (mappings i).aligned⟩
  obtain ⟨sub, run, moves⟩ := submitAll_aligned variant (fun q inside => (each q inside).1)
    (fun q inside => (each q inside).2) granted
  refine ⟨sub, run, transfers_pages inv (randomArr_perm n draw) (nentsPerTable_mul tables) mappings
    ?_ ?_⟩
  · intro h inside
    have := handed_below run h inside
    rwa [queuesOf, List.length_ofFn] at this
  · intro i
    apply moves
    simp [queuesOf]

end DsaTest.Protocol
