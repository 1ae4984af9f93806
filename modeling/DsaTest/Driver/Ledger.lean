import DsaTest.Driver.Irq

/-! Where a descriptor with interrupts is, as long as the device takes what it is given and no
interrupt handle is lost: it is always at one stage, on as many lists as the stage says, and the
log has for it what has led there. -/
namespace DsaTest.Driver

def Irq.held : Irq → List Nat
  | .walk flist => flist
  | .walkFree d flist => d :: flist
  | .next _ flist _ => flist
  | .pending head => head
  | .pendingFree d head => d :: head
  | .keep d head => d :: head
  | .idle | .takeAll => []

def Irq.freeing : Irq → Option Nat
  | .walkFree d _ | .pendingFree d _ => some d
  | _ => none

def Irq.walking : Irq → List Nat
  | .walk flist | .walkFree _ flist | .next _ flist _ => flist
  | _ => []

/-- What the pass of the thread has still to see, where `pending` is the lockless list. -/
def Irq.ahead (pending : List Nat) : Irq → List Nat
  | .walk flist | .walkFree _ flist | .next _ flist _ => flist ++ pending
  | .takeAll => pending
  | .pending head | .pendingFree _ head | .keep _ head => head
  | .idle => []

inductive Stage
  | free
  | ready (again : Bool)
  | retrying
  | listed
  | waiting
  | answered
  | freeing
  deriving DecidableEq, Repr

namespace Stage

def allocated : Stage → Bool
  | .free => false
  | _ => true

def submitter : Stage → Submitter
  | .ready again => .ready again
  | .retrying => .retrying
  | .listed => .listed
  | _ => .away

def cookie : Stage → Bool
  | .free | .freeing => false
  | _ => true

def places : Stage → Nat
  | .free | .ready _ | .retrying => 0
  | _ => 1

def Status (status : Nat) : Stage → Prop
  | .free | .retrying => True
  | .ready _ | .listed | .waiting => status = 0
  | .answered | .freeing => dsaCompStatus status ≠ 0 ∧ status ≠ idxdCompDescAbort

end Stage

def Event.desc : Event → Nat
  | .alloc d | .answer d | .requeue d | .callback d _ | .refused d | .gaveUp d | .free d => d

def Event.isCallback : Event → Bool
  | .callback _ _ => true
  | _ => false

def callbacks (log : List Event) (d : Nat) : Nat := log.countP fun e => e.isCallback && e.desc = d

/-- The life of a descriptor: its stages, and what is logged between them, newest first. -/
inductive Edge (d : Nat) : Stage → List Event → Stage → Prop
  | alloc : Edge d .free [.alloc d] (.ready false)
  | refuse : Edge d (.ready false) [.free d, .refused d] .free
  | giveUp (result : TxResult) :
      Edge d (.ready true) [.free d, .callback d result, .gaveUp d] .free
  | list (again : Bool) : Edge d (.ready again) [] .listed
  | accept : Edge d .listed [] .waiting
  | restart : Edge d .retrying [] (.ready true)
  | answer : Edge d .waiting [.answer d] .answered
  | requeue : Edge d .answered [.requeue d] .retrying
  | callback (result : TxResult) : Edge d .answered [.callback d result] .freeing
  | free : Edge d .freeing [.free d] .free

/-- What the log has of a descriptor at a stage. -/
structure Books (log : List Event) (d : Nat) (g : Stage) : Prop where
  allocs : log.count (.alloc d) = log.count (.free d) + g.allocated.toNat
  frees : log.count (.free d) + (if g = .freeing then 1 else 0) =
    callbacks log d + log.count (.refused d)
  answers : log.count (.answer d) + log.count (.gaveUp d) =
    callbacks log d + log.count (.requeue d) + (if g = .answered then 1 else 0)

namespace State

def lists (s : State) : List Nat := s.pendingLlist ++ s.workList ++ s.irq.held

def Answered (s : State) (d : Nat) : Prop :=
  s.allocated d = true ∧ s.submitter d = .away ∧ s.busy d = false ∧ s.irq.freeing ≠ some d

instance (s : State) (d : Nat) : Decidable (s.Answered d) := inferInstanceAs (Decidable (_ ∧ _))

end State

structure At (s : State) (d : Nat) (g : Stage) : Prop where
  allocated : s.allocated d = g.allocated
  submitter : s.submitter d = g.submitter
  busy : s.busy d = decide (g = .waiting)
  cookie : g ≠ .free → s.cookie d = g.cookie
  places : s.lists.count d = g.places
  freeing : s.irq.freeing = some d ↔ g = .freeing
  status : g.Status (s.status d)
  books : Books s.log d g

structure Same (s t : State) (x : Nat) : Prop where
  allocated : t.allocated x = s.allocated x
  submitter : t.submitter x = s.submitter x
  busy : t.busy x = s.busy x
  cookie : t.cookie x = s.cookie x
  status : t.status x = s.status x
  places : t.lists.count x = s.lists.count x
  freeing : t.irq.freeing = some x ↔ s.irq.freeing = some x
  log : ∃ new, t.log = new ++ s.log ∧ ∀ e ∈ new, e.desc ≠ x

variable {cfg : Config} {s t : State} {a : Action} {d x : Nat} {g g' : Stage}
  {log new : List Event}

theorem callbacks_append (d : Nat) :
    callbacks (new ++ log) d = callbacks new d + callbacks log d := List.countP_append

theorem Books.others (so : Books log x g) (others : ∀ e ∈ new, e.desc ≠ x) :
    Books (new ++ log) x g := by
  have count (e : Event) (mine : e.desc = x) : (new ++ log).count e = log.count e := by
    rw [List.count_append, List.count_eq_zero_of_not_mem, Nat.zero_add]
    exact fun member => others e member mine
  have calls : callbacks (new ++ log) x = callbacks log x := by
    rw [callbacks_append, callbacks, List.countP_eq_zero.mpr, Nat.zero_add]
    intro e member
    simp [others e member]
  constructor
  · rw [count _ rfl, count _ rfl, so.allocs]
  · rw [count _ rfl, count _ rfl, calls, so.frees]
  · rw [count _ rfl, count _ rfl, count _ rfl, calls, so.answers]

/-- Along every edge of its life the books of a descriptor are kept. -/
theorem Books.edge (so : Books log d g) (edge : Edge d g new g') : Books (new ++ log) d g' := by
  have allocs := so.allocs
  have frees := so.frees
  have answers := so.answers
  cases edge <;>
    constructor <;>
    simp [callbacks, Event.isCallback, Event.desc, Stage.allocated] at * <;>
    omega

theorem At.frame (so : At s x g) (same : Same s t x) : At t x g where
  allocated := same.allocated.trans so.allocated
  submitter := same.submitter.trans so.submitter
  busy := same.busy.trans so.busy
  cookie some := same.cookie.trans (so.cookie some)
  places := same.places.trans so.places
  freeing := same.freeing.trans so.freeing
  status := same.status ▸ so.status
  books := by
    obtain ⟨new, log, others⟩ := same.log
    exact log ▸ so.books.others others

theorem At.answered_of_status (so : At s d g) (listed : d ∈ s.lists) (status : s.status d ≠ 0)
    (kept : s.irq.freeing ≠ some d) : g = .answered := by
  have place := List.count_pos_iff.mpr listed
  rw [so.places] at place
  have value := so.status
  cases g with
  | free | ready | retrying => simp [Stage.places] at place
  | listed | waiting => exact absurd value status
  | answered => rfl
  | freeing => exact absurd (so.freeing.mpr rfl) kept

structure Inv (s : State) : Prop where
  stage : ∀ d, ∃ g, At s d g
  seen : ∀ d ∈ s.irq.walking, s.status d ≠ 0
  straight : ∀ d flist, s.irq ≠ .next d flist true
  fault : s.fault = false
  revoker : s.revoker = []
  due : ∀ d ∈ s.due, s.status d ≠ 0 ∧ d ∈ s.irq.ahead s.pendingLlist

theorem empty_books (d : Nat) : Books [] d .free := by constructor <;> rfl

theorem inv_initial : Inv initial where
  stage d := ⟨.free, by constructor <;> simp [initial, Stage.allocated, Stage.submitter,
    Stage.places, Stage.Status, State.lists, Irq.held, Irq.freeing, empty_books]⟩
  seen := by simp [initial, Irq.walking]
  straight := by simp [initial]
  fault := rfl
  revoker := rfl
  due := by simp [initial]

theorem free_of_allocated (owned : s.allocated d = true) :
    s.free d = { s with allocated := Function.update s.allocated d false }.record (.free d) :=
  if_pos owned

theorem callBack_of_status (type : CompleteType) (status : s.status d ≠ 0)
    (cookie : s.cookie d = true) :
    ∃ result, s.callBack type d = { s with
      cookie := Function.update s.cookie d false
      due := s.due.filter (· ≠ d) }.record (.callback d result) := by
  obtain ⟨result, found⟩ : ∃ result, State.txResult type (s.status d) = some result := by
    unfold State.txResult
    split
    next => exact ⟨.noError, rfl⟩
    next => exact ⟨.writeFailed, rfl⟩
  exact ⟨result, by simp only [State.callBack, found, cookie, if_true]⟩

theorem Same.of_lists (lists : ∀ x, t.lists.count x = s.lists.count x)
    (freeing : t.irq.freeing = s.irq.freeing) (allocated : t.allocated = s.allocated)
    (submitter : t.submitter = s.submitter) (busy : t.busy = s.busy) (cookie : t.cookie = s.cookie)
    (status : t.status = s.status) (log : t.log = s.log) (x : Nat) : Same s t x where
  allocated := by rw [allocated]
  submitter := by rw [submitter]
  busy := by rw [busy]
  cookie := by rw [cookie]
  status := by rw [status]
  places := lists x
  freeing := by rw [freeing]
  log := ⟨[], log, by simp⟩

theorem count_filter_split (status : Nat → Nat) (l : List Nat) (x : Nat) :
    (l.filter fun d => status d = 0).count x + (l.filter fun d => status d ≠ 0).count x =
      l.count x := by
  have split := (List.filter_append_perm (fun d => status d = 0) l).count_eq x
  simpa using split

theorem At.along (so : At s d g) (edge : Edge d g new g') (log : t.log = new ++ s.log)
    (allocated : t.allocated d = g'.allocated) (submitter : t.submitter d = g'.submitter)
    (busy : t.busy d = decide (g' = .waiting)) (cookie : g' ≠ .free → t.cookie d = g'.cookie)
    (places : t.lists.count d = g'.places) (freeing : t.irq.freeing = some d ↔ g' = .freeing)
    (status : g'.Status (t.status d)) : At t d g' :=
  ⟨allocated, submitter, busy, cookie, places, freeing, status, log ▸ so.books.edge edge⟩

/-- What one descriptor does is at most one edge of its life. -/
theorem Inv.stage_of_other (ok : Inv s) (others : ∀ x ≠ d, Same s t x) (mine : ∃ g, At t d g)
    (x : Nat) : ∃ g, At t x g := by
  by_cases here : x = d
  · exact here ▸ mine
  · obtain ⟨g, so⟩ := ok.stage x
    exact ⟨g, so.frame (others x here)⟩

theorem Irq.ahead_lists {irq : Irq} {pending work : List Nat} {d : Nat}
    (ahead : d ∈ irq.ahead pending) : d ∈ pending ++ work ++ irq.held := by
  cases irq <;> simp [Irq.ahead, Irq.held] at * <;> tauto

theorem Irq.walking_lists {irq : Irq} {pending work : List Nat} {d : Nat}
    (walking : d ∈ irq.walking) : d ∈ pending ++ work ++ irq.held := by
  cases irq <;> simp [Irq.walking, Irq.held] at * <;> tauto

theorem Irq.ahead_mono {irq : Irq} {pending pending' : List Nat} {d : Nat}
    (more : pending ⊆ pending') (ahead : d ∈ irq.ahead pending) : d ∈ irq.ahead pending' := by
  have more := @more d
  cases irq <;> simp [Irq.ahead] at * <;> tauto

theorem Inv.of_client (ok : Inv s) (stage : ∀ x, ∃ g, At t x g) (irq : t.irq = s.irq)
    (fault : t.fault = s.fault) (revoker : t.revoker = s.revoker) (due : t.due ⊆ s.due)
    (pending : s.pendingLlist ⊆ t.pendingLlist)
    (status : ∀ x ∈ s.lists, s.status x ≠ 0 → t.status x ≠ 0) : Inv t where
  stage := stage
  seen x walking := by
    rw [irq] at walking
    exact status x (Irq.walking_lists walking) (ok.seen x walking)
  straight := by rw [irq]; exact ok.straight
  fault := fault.trans ok.fault
  revoker := revoker.trans ok.revoker
  due x member := by
    obtain ⟨answered, ahead⟩ := ok.due x (due member)
    rw [irq]
    exact ⟨status x (Irq.ahead_lists ahead) answered, Irq.ahead_mono pending ahead⟩

theorem At.unlisted (so : At s d g) (none : g.places = 0) {x : Nat} (member : x ∈ s.lists) :
    x ≠ d := by
  rintro rfl
  have place := List.count_pos_iff.mpr member
  rw [so.places, none] at place
  contradiction

theorem At.free_of_unowned (so : At s d g) (unowned : s.allocated d = false) : g = .free := by
  have owned := so.allocated
  rw [unowned] at owned
  cases g with
  | free => rfl
  | _ => contradiction

theorem Stage.eq_of_submitter (same : g.submitter = g'.submitter) (there : g'.submitter ≠ .away) :
    g = g' := by
  cases g <;> cases g' <;> simp_all [Stage.submitter]

theorem Inv.client_edge (ok : Inv s) (so : At s d g) (edge : Edge d g new g')
    (log : t.log = new ++ s.log) (others : ∀ x ≠ d, Same s t x)
    (allocated : t.allocated d = g'.allocated) (submitter : t.submitter d = g'.submitter)
    (busy : t.busy d = decide (g' = .waiting)) (cookie : g' ≠ .free → t.cookie d = g'.cookie)
    (places : t.lists.count d = g'.places) (apart : g ≠ .freeing ∧ g' ≠ .freeing)
    (status : g'.Status (t.status d)) (irq : t.irq = s.irq) (fault : t.fault = s.fault)
    (revoker : t.revoker = s.revoker) (due : t.due ⊆ s.due)
    (pending : s.pendingLlist ⊆ t.pendingLlist)
    (kept : g.places = 1 → s.status d ≠ 0 → t.status d ≠ 0) : Inv t := by
  apply ok.of_client _ irq fault revoker due pending
  · intro x member answered
    by_cases here : x = d
    · subst here
      apply kept _ answered
      have place := List.count_pos_iff.mpr member
      rw [so.places] at place
      cases g <;> simp [Stage.places] at *
    · rwa [(others x here).status]
  · apply ok.stage_of_other others
    refine ⟨g', so.along edge log allocated submitter busy cookie places ?_ status⟩
    rw [irq, so.freeing]
    exact iff_of_false apart.1 apart.2

end DsaTest.Driver
