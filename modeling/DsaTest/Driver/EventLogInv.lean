import DsaTest.Driver.EventLog

/-! What holds of the event log, the interrupt thread and the processes that close a queue
after every step. -/
namespace DsaTest.Driver.EventLog

variable {size : Nat} {s t : State} {a : Action} {h : List (State × Action)}

def Misc.locks : Misc → Bool
  | .cleared | .loop .. => true
  | _ => false

def Closer.locks : Closer → Bool
  | .marking .. => true
  | _ => false

inductive Closer.Behind (wq pasid upto : Nat) : Closer → Prop
  | marked : Behind wq pasid upto (.marked wq pasid upto)
  | flushing : Behind wq pasid upto (.flushing wq pasid upto)

def Covered (s : State) (wq pasid from_ upto : Nat) : Prop :=
  ∀ k e, from_ ≤ k → k < upto → s.logged[k]? = some e → e.wqIdx = wq → e.pasid = pasid →
    k ∈ s.marks

structure Inv (size : Nat) (s : State) : Prop where
  released : s.released ≤ s.outcomes.length
  handled : s.outcomes.length ≤ s.logged.length
  room : s.logged.length < s.released + size
  tail : s.tail = s.logged.length % size
  headReg : s.headReg = s.released % size
  head : s.head = s.released % size
  holds : Ring.Holds s.ring s.logged size s.released
  miscLock : s.lock = some .misc ↔ s.misc.locks = true
  closerLock : ∀ i, s.lock = some (.closer i) ↔ (s.closer i).locks = true
  even : (∀ h t upto, s.misc ≠ .loop h t upto) → s.released = s.outcomes.length
  loop : ∀ h t upto, s.misc = .loop h t upto → h = s.outcomes.length % size ∧
    t = upto % size ∧ s.outcomes.length ≤ upto ∧ upto ≤ s.logged.length
  marking : ∀ i wq pasid h t pos upto, s.closer i = .marking wq pasid h t pos upto →
    h = pos % size ∧ t = upto % size ∧ s.outcomes.length ≤ pos ∧ pos ≤ upto ∧
      upto ≤ s.logged.length ∧ Covered s wq pasid s.outcomes.length pos
  behind : ∀ i wq pasid upto, (s.closer i).Behind wq pasid upto →
    upto ≤ s.logged.length ∧ Covered s wq pasid s.outcomes.length upto
  closed : ∀ c ∈ s.closed, c.upto ≤ s.logged.length ∧
    Covered s c.wq c.pasid s.outcomes.length c.upto ∧
      ∀ w ∈ s.works, w.entry.wqIdx = c.wq → w.entry.pasid = c.pasid → c.upto ≤ w.pos
  marks : ∀ k ∈ s.marks, k < s.logged.length
  bmap : ∀ i, s.bmap i = true ↔ ∃ k ∈ s.marks, s.outcomes.length ≤ k ∧ k % size = i
  entries : s.outcomes.map Prod.fst = s.logged.take s.outcomes.length
  skipped : ∀ k x, s.outcomes[k]? = some x → (x.2 = .skipped ↔ k ∈ s.marks)
  works : ∀ w ∈ s.works, s.outcomes[w.pos]? = some (w.entry, .queued)
  pending : s.intPending = true → s.cause = true ∨ s.misc = .acked
  idle : s.misc = .idle → s.outcomes.length < s.logged.length → s.cause = true
  caused : s.misc = .caused → s.cause = true
  behindLoop : ∀ h t upto, s.misc = .loop h t upto → upto < s.logged.length → s.cause = true

theorem inv_initial (pos : 0 < size) : Inv size initial := by
  constructor <;> simp [initial, Misc.locks, Closer.locks, Ring.Holds, pos]
  rintro _ _ _ ⟨⟩

theorem Covered.mono {wq pasid from_ upto from' upto' : Nat} (covered : Covered s wq pasid from_ upto)
    (later : from_ ≤ from') (shorter : upto' ≤ upto) : Covered s wq pasid from' upto' :=
  fun k e le lt => covered k e (Nat.le_trans later le) (Nat.lt_of_lt_of_le lt shorter)

theorem Covered.log {wq pasid from_ upto : Nat} (covered : Covered s wq pasid from_ upto)
    (below : upto ≤ s.logged.length) (logged : ∀ k < s.logged.length, t.logged[k]? = s.logged[k]?)
    (marks : t.marks = s.marks) : Covered t wq pasid from_ upto := by
  intro k e le lt at_
  rw [logged k (by omega)] at at_
  rw [marks]
  exact covered k e le lt at_

theorem inv_log {e : Entry} (ok : Inv size s) (taken : step size s (.log e) = some t) : Inv size t := by
  simp only [step, Option.ite_none_left_eq_some, Option.some.injEq] at taken
  obtain ⟨room, rfl⟩ := taken
  have room : s.logged.length + 1 < s.released + size := by
    rw [ok.tail, ok.headReg, Ring.slot_succ] at room
    exact Ring.room_succ ok.room room
  have same (k : Nat) (lt : k < s.logged.length) : (s.logged ++ [e])[k]? = s.logged[k]? :=
    List.getElem?_append_left lt
  have more {k : Nat} (le : k ≤ s.logged.length) : k ≤ (s.logged ++ [e]).length := by
    rw [List.length_append]
    omega
  have cause (so : s.intPending = true → s.cause = true) : (s.cause || !s.intPending) = true := by
    cases pending : s.intPending
    · simp
    · simp [so pending]
  refine { ok with
    handled := ?_, room := ?_, tail := ?_, holds := ?_, loop := ?_, marking := ?_, behind := ?_,
    closed := ?_, marks := ?_, entries := ?_, pending := ?_, idle := ?_, caused := ?_,
    behindLoop := ?_ }
  · exact more ok.handled
  · simpa using room
  · simp [ok.tail, Ring.slot_succ]
  · rw [ok.tail]
    exact ok.holds.push ok.room e
  · intro h t upto loop
    obtain ⟨h_eq, t_eq, le, below⟩ := ok.loop h t upto loop
    exact ⟨h_eq, t_eq, le, more below⟩
  · intro i wq pasid h t pos upto marking
    obtain ⟨h_eq, t_eq, le, le', below, covered⟩ := ok.marking i wq pasid h t pos upto marking
    exact ⟨h_eq, t_eq, le, le', more below,
      covered.log (Nat.le_trans le' below) same rfl⟩
  · intro i wq pasid upto behind
    obtain ⟨below, covered⟩ := ok.behind i wq pasid upto behind
    exact ⟨more below, covered.log below same rfl⟩
  · intro c member
    obtain ⟨below, covered, works⟩ := ok.closed c member
    exact ⟨more below, covered.log below same rfl, works⟩
  · intro k member
    simpa using Nat.lt_succ_of_lt (ok.marks k member)
  · simp only [List.take_append_of_le_length ok.handled]
    exact ok.entries
  · intro _
    exact (em (s.misc = .acked)).symm.imp_left fun other =>
      cause fun pending => (ok.pending pending).resolve_right other
  · intro idle _
    have other : s.misc ≠ .acked := fun acked => by cases idle.symm.trans acked
    exact cause fun pending => (ok.pending pending).resolve_right other
  · intro caused
    simp [ok.caused caused]
  · intro h t upto loop _
    have other : s.misc ≠ .acked := fun acked => by cases loop.symm.trans acked
    exact cause fun pending => (ok.pending pending).resolve_right other

theorem Inv.front (ok : Inv size s) {h t upto : Nat} (loop : s.misc = .loop h t upto)
    (on : h ≠ t) : s.outcomes.length < upto ∧ s.logged[s.outcomes.length]? = some (s.ring h) ∧
      (s.bmap h = true ↔ s.outcomes.length ∈ s.marks) := by
  obtain ⟨rfl, rfl, le, below⟩ := ok.loop h t upto loop
  have lt : s.outcomes.length < upto := by
    rcases Nat.lt_or_eq_of_le le with lt | equal
    · exact lt
    · exact absurd (by rw [equal]) on
  have inside : s.outcomes.length < s.logged.length := Nat.lt_of_lt_of_le lt below
  have at_ : s.logged[s.outcomes.length]? = some s.logged[s.outcomes.length] :=
    List.getElem?_eq_getElem inside
  refine ⟨lt, ?_, ?_⟩
  · rw [ok.holds _ ok.released _ at_]
    exact at_
  · rw [ok.bmap]
    constructor
    · rintro ⟨k, member, from_, same⟩
      have k_below := ok.marks k member
      have equal := Ring.slot_injective ok.room (Nat.le_trans ok.released from_)
        (Nat.le_of_lt k_below) ok.released ok.handled same
      exact equal ▸ member
    · exact fun member => ⟨_, member, Nat.le_refl _, rfl⟩

theorem outcome_ne_skipped (e : Entry) (alloc draining : Bool) :
    outcome e alloc draining ≠ .skipped := by
  unfold outcome
  repeat' split
  all_goals simp

theorem Inv.handle (ok : Inv size s) {h t upto : Nat} {o : Outcome} {bmap : Nat → Bool}
    {works : List Work} (loop : s.misc = .loop h t upto) (on : h ≠ t)
    (skipped : o = .skipped ↔ s.outcomes.length ∈ s.marks)
    (left : ∀ i, bmap i = true ↔ ∃ k ∈ s.marks, s.outcomes.length + 1 ≤ k ∧ k % size = i)
    (new : ∀ w ∈ works, w ∈ s.works ∨ w = ⟨s.outcomes.length, s.ring h⟩ ∧ o = .queued) :
    Inv size { s with
      bmap := bmap
      works := works
      outcomes := s.outcomes ++ [(s.ring h, o)]
      misc := .loop ((h + 1) % size) t upto } := by
  obtain ⟨lt, at_, -⟩ := ok.front loop on
  obtain ⟨rfl, rfl, le, below⟩ := ok.loop h t upto loop
  have length : (s.outcomes ++ [(s.ring (s.outcomes.length % size), o)]).length =
      s.outcomes.length + 1 := by simp
  have once {wq pasid upto' : Nat} (covered : Covered s wq pasid s.outcomes.length upto') :
      Covered s wq pasid (s.outcomes.length + 1) upto' :=
    covered.mono (Nat.le_succ _) (Nat.le_refl _)
  have locked : s.lock = some .misc := ok.miscLock.mpr (by simp [loop, Misc.locks])
  refine { ok with
    released := ?_, handled := ?_, miscLock := ?_, even := ?_, loop := ?_, marking := ?_,
    behind := ?_, closed := ?_, bmap := ?_, entries := ?_, skipped := ?_, works := ?_,
    pending := ?_, idle := ?_, caused := ?_, behindLoop := ?_ } <;> simp only [length]
  · exact Nat.le_succ_of_le ok.released
  · omega
  · simpa [Misc.locks] using locked
  · exact fun other => absurd rfl (other _ _ _)
  · rintro _ _ _ ⟨⟩
    exact ⟨Ring.slot_succ _ _, rfl, lt, below⟩
  · intro i wq pasid h t pos upto marking
    -- the lock is held by the interrupt thread
    have other := (ok.closerLock i).mpr (by simp [marking, Closer.locks])
    rw [locked] at other
    simp at other
  · intro i wq pasid upto behind
    obtain ⟨below, covered⟩ := ok.behind i wq pasid upto behind
    exact ⟨below, once covered⟩
  · intro c member
    obtain ⟨below, covered, before⟩ := ok.closed c member
    refine ⟨below, once covered, ?_⟩
    intro w work wq pasid
    rcases new w work with old | ⟨rfl, queued⟩
    · exact before w old wq pasid
    · -- an entry from before the close is marked
      by_contra early
      have mark := covered _ _ (Nat.le_refl _) (Nat.lt_of_not_le early) at_ wq pasid
      rw [skipped.mpr mark] at queued
      contradiction
  · exact left
  · rw [List.map_append, ok.entries, List.take_add_one, at_]
    rfl
  · intro k x at'
    rcases Nat.lt_trichotomy k s.outcomes.length with old | rfl | later
    · rw [List.getElem?_append_left old] at at'
      exact ok.skipped k x at'
    · rw [List.getElem?_concat_length] at at'
      exact Option.some.inj at' ▸ skipped
    · rw [List.getElem?_eq_none (by rw [length]; omega)] at at'
      contradiction
  · intro w work
    rcases new w work with old | ⟨rfl, rfl⟩
    · have at' := ok.works w old
      rwa [List.getElem?_append_left (List.getElem?_eq_some_iff.mp at').1]
    · exact List.getElem?_concat_length
  · exact fun pending => .inl ((ok.pending pending).resolve_right (by simp [loop]))
  · simp
  · simp
  · rintro _ _ _ ⟨⟩
    exact ok.behindLoop _ _ _ loop

theorem inv_process (ok : Inv size s) {h t upto : Nat} {alloc : Bool}
    (loop : s.misc = .loop h t upto) (on : h ≠ t) :
    Inv size { processEvlEntry s h alloc with misc := .loop ((h + 1) % size) t upto } := by
  obtain ⟨lt, at_, marked⟩ := ok.front loop on
  obtain ⟨h_eq, -, -, below⟩ := ok.loop h t upto loop
  have next (k : Nat) (member : k ∈ s.marks) (from_ : s.outcomes.length ≤ k) :
      k % size = h ↔ k = s.outcomes.length := by
    rw [h_eq]
    refine ⟨fun same => ?_, fun equal => equal ▸ rfl⟩
    exact Ring.slot_injective ok.room (Nat.le_trans ok.released from_)
      (Nat.le_of_lt (ok.marks k member)) ok.released ok.handled same
  unfold processEvlEntry
  split
  next bit =>
    apply ok.handle loop on
    · simpa using marked.mp bit
    · intro i
      dsimp only
      by_cases own : i = h
      · subst own
        simp only [Function.update_self, Bool.false_eq_true, false_iff]
        rintro ⟨k, member, from_, same⟩
        have equal := (next k member (by omega)).mp same
        omega
      · rw [Function.update_of_ne own, ok.bmap]
        constructor
        · rintro ⟨k, member, from_, same⟩
          refine ⟨k, member, ?_, same⟩
          rcases Nat.lt_or_eq_of_le from_ with later | equal
          · exact later
          · exact absurd (same.symm.trans ((next k member from_).mpr equal.symm)) own
        · rintro ⟨k, member, from_, same⟩
          exact ⟨k, member, by omega, same⟩
    · exact fun w work => .inl work
  next bit =>
    apply ok.handle loop on
    · simpa [outcome_ne_skipped] using fun member => bit (marked.mpr member)
    · intro i
      rw [ok.bmap]
      constructor
      · rintro ⟨k, member, from_, same⟩
        refine ⟨k, member, ?_, same⟩
        rcases Nat.lt_or_eq_of_le from_ with later | rfl
        · exact later
        · exact absurd (marked.mpr member) bit
      · rintro ⟨k, member, from_, same⟩
        exact ⟨k, member, by omega, same⟩
    · intro w work
      dsimp only at work
      split at work
      next queued =>
        rcases List.mem_cons.mp work with rfl | old
        · exact .inr ⟨rfl, queued⟩
        · exact .inl old
      next => exact .inl work

theorem inv_misc {alloc : Bool} (ok : Inv size s) (taken : miscStep size s alloc = some t) :
    Inv size t := by
  have free (held : s.lock ≠ some .misc) : s.misc.locks = false :=
    Bool.eq_false_iff.mpr fun locks => held (ok.miscLock.mpr locks)
  unfold miscStep at taken
  split at taken
  next idle =>
    simp only [Option.ite_none_right_eq_some, Option.some.injEq] at taken
    obtain ⟨cause, rfl⟩ := taken
    refine { ok with
      miscLock := ?_, even := ?_, loop := ?_, pending := ?_, idle := ?_, caused := ?_,
      behindLoop := ?_ }
    · simpa [idle, Misc.locks] using ok.miscLock
    · exact fun _ => ok.even (by simp [idle])
    · simp
    · exact fun _ => .inl cause
    · simp
    · exact fun _ => cause
    · simp
  next caused =>
    cases taken
    refine { ok with
      miscLock := ?_, even := ?_, loop := ?_, pending := ?_, idle := ?_, caused := ?_,
      behindLoop := ?_ }
    · simpa [caused, Misc.locks] using ok.miscLock
    · exact fun _ => ok.even (by simp [caused])
    · simp
    · exact fun _ => .inr rfl
    · simp
    · simp
    · simp
  next acked =>
    simp only [Option.ite_none_right_eq_some, Option.some.injEq] at taken
    obtain ⟨lock, rfl⟩ := taken
    refine { ok with
      miscLock := ?_, closerLock := ?_, even := ?_, loop := ?_, pending := ?_, idle := ?_,
      caused := ?_, behindLoop := ?_ }
    · simp [Misc.locks]
    · intro i
      simpa [lock] using ok.closerLock i
    · exact fun _ => ok.even (by simp [acked])
    · simp
    · simp
    · simp
    · simp
    · simp
  next cleared =>
    cases taken
    have even := ok.even (by simp [cleared])
    refine { ok with
      miscLock := ?_, even := ?_, loop := ?_, pending := ?_, idle := ?_, caused := ?_,
      behindLoop := ?_ }
    · simpa [cleared, Misc.locks] using ok.miscLock
    · exact fun _ => even
    · rintro _ _ _ ⟨⟩
      exact ⟨even ▸ ok.head, ok.tail, ok.handled, Nat.le_refl _⟩
    · exact fun pending => .inl ((ok.pending pending).resolve_right (by simp [cleared]))
    · simp
    · simp
    · rintro _ _ _ ⟨⟩ later
      exact absurd later (Nat.lt_irrefl _)
  next h t upto loop =>
    split at taken
    next done =>
      cases taken
      obtain ⟨h_eq, t_eq, le, below⟩ := ok.loop h t upto loop
      have all : s.outcomes.length = upto :=
        Ring.slot_injective ok.room ok.released ok.handled (Nat.le_trans ok.released le) below
          (h_eq.symm.trans (done.trans t_eq))
      refine { ok with
        released := ?_, room := ?_, headReg := ?_, head := ?_, holds := ?_, miscLock := ?_,
        closerLock := ?_, even := ?_, loop := ?_, pending := ?_, idle := ?_, caused := ?_,
        behindLoop := ?_ }
      · exact Nat.le_refl _
      · exact Nat.lt_of_lt_of_le ok.room (Nat.add_le_add_right ok.released _)
      · exact h_eq
      · exact h_eq
      · exact ok.holds.mono ok.released
      · simp [Misc.locks]
      · intro i
        have locked : s.lock = some .misc := ok.miscLock.mpr (by simp [loop, Misc.locks])
        simpa [locked] using ok.closerLock i
      · exact fun _ => rfl
      · simp
      · exact fun pending => .inl ((ok.pending pending).resolve_right (by simp [loop]))
      · intro _ more
        exact ok.behindLoop h t upto loop (all ▸ more)
      · simp
      · simp
    next on => exact Option.some.inj taken ▸ inv_process ok loop on

theorem inv_run {w : Work} (ok : Inv size s) : Inv size { s with works := s.works.erase w } :=
  { ok with
    closed := fun c member =>
      have ⟨below, covered, before⟩ := ok.closed c member
      ⟨below, covered, fun w work => before w (List.mem_of_mem_erase work)⟩
    works := fun w work => ok.works w (List.mem_of_mem_erase work) }

section

/- Steps of a process that closes a queue. -/
variable {i : Nat} {c : Closer}

theorem Inv.behind_update {wq pasid upto j : Nat} (ok : Inv size s)
    (behind : (Function.update s.closer i c j).Behind wq pasid upto)
    (own : c.Behind wq pasid upto → upto ≤ s.logged.length ∧
      Covered s wq pasid s.outcomes.length upto) :
    upto ≤ s.logged.length ∧ Covered s wq pasid s.outcomes.length upto := by
  by_cases self : j = i
  · rw [self, Function.update_self] at behind
    exact own behind
  · rw [Function.update_of_ne self] at behind
    exact ok.behind j wq pasid upto behind

theorem inv_close {wq pasid : Nat} (ok : Inv size s) (lock : s.lock = none)
    (away : s.closer i = .away) :
    Inv size { s with
      lock := some (.closer i)
      closer := Function.update s.closer i
        (.marking wq pasid s.head s.tail s.outcomes.length s.logged.length) } := by
  have unlocked : s.misc.locks = false :=
    Bool.eq_false_iff.mpr fun locks => by simp [ok.miscLock.mpr locks] at lock
  have even : s.released = s.outcomes.length := by
    apply ok.even
    rintro h t upto loop
    simp [loop, Misc.locks] at unlocked
  refine { ok with miscLock := ?_, closerLock := ?_, marking := ?_, behind := ?_ }
  · simp [unlocked]
  · intro j
    by_cases self : j = i
    · subst self
      simp [Closer.locks]
    · have other := ok.closerLock j
      rw [lock] at other
      simpa [Function.update_of_ne self, Ne.symm self] using other
  · intro j wq' pasid' h t pos upto marking
    by_cases self : j = i
    · subst self
      simp only [Function.update_self, Closer.marking.injEq] at marking
      obtain ⟨rfl, rfl, rfl, rfl, rfl, rfl⟩ := marking
      refine ⟨even ▸ ok.head, ok.tail, Nat.le_refl _, ok.handled, Nat.le_refl _, ?_⟩
      exact fun k e from_ below => absurd below (Nat.not_lt_of_le from_)
    · simp only [Function.update_of_ne self] at marking
      exact ok.marking j wq' pasid' h t pos upto marking
  · intro j wq' pasid' upto behind
    exact ok.behind_update behind (by rintro ⟨⟩)

theorem Inv.mark (ok : Inv size s) {wq pasid h t pos upto : Nat} {bmap : Nat → Bool}
    {marks : List Nat} (at_ : s.closer i = .marking wq pasid h t pos upto) (on : h ≠ t)
    (more : s.marks ⊆ marks) (old : ∀ k ∈ marks, k = pos ∨ k ∈ s.marks)
    (set_ : ∀ i, bmap i = true ↔ ∃ k ∈ marks, s.outcomes.length ≤ k ∧ k % size = i)
    (own : (s.ring h).wqIdx = wq → (s.ring h).pasid = pasid → pos ∈ marks) :
    Inv size { s with
      closer := Function.update s.closer i (.marking wq pasid ((h + 1) % size) t (pos + 1) upto)
      bmap := bmap
      marks := marks } := by
  obtain ⟨rfl, rfl, le, le', below, covered⟩ := ok.marking i wq pasid h t pos upto at_
  have lt : pos < upto := by
    rcases Nat.lt_or_eq_of_le le' with lt | equal
    · exact lt
    · exact absurd (by rw [equal]) on
  have locked : s.lock = some (.closer i) := (ok.closerLock i).mpr (by simp [at_, Closer.locks])
  have keep {wq pasid from_ upto : Nat} (covered : Covered s wq pasid from_ upto) :
      Covered { s with
        closer := Function.update s.closer i
          (.marking wq pasid ((pos % size + 1) % size) (upto % size) (pos + 1) upto)
        bmap := bmap
        marks := marks } wq pasid from_ upto :=
    fun k e from_ below at_ wq pasid => more (covered k e from_ below at_ wq pasid)
  refine { ok with
    closerLock := ?_, marking := ?_, behind := ?_, closed := ?_, marks := ?_, bmap := set_,
    skipped := ?_ }
  · intro j
    by_cases self : j = i
    · subst self
      simpa [Closer.locks] using locked
    · simpa only [Function.update_of_ne self] using ok.closerLock j
  · intro j wq' pasid' h t pos' upto' marking
    by_cases self : j = i
    · subst self
      simp only [Function.update_self, Closer.marking.injEq] at marking
      obtain ⟨rfl, rfl, rfl, rfl, rfl, rfl⟩ := marking
      refine ⟨Ring.slot_succ _ _, rfl, Nat.le_succ_of_le le, lt, below, ?_⟩
      intro k e from_ before at' wq pasid
      rcases Nat.lt_or_eq_of_le (Nat.le_of_lt_succ before) with earlier | rfl
      · exact more (covered k e from_ earlier at' wq pasid)
      · have same := ok.holds k (Nat.le_trans ok.released le) e at'
        rw [← same] at wq pasid
        exact own wq pasid
    · simp only [Function.update_of_ne self] at marking
      have other := (ok.closerLock j).mpr (by simp [marking, Closer.locks])
      rw [locked] at other
      simp [Ne.symm self] at other
  · intro j wq' pasid' upto' behind
    obtain ⟨below, covered⟩ := ok.behind_update behind (by rintro ⟨⟩)
    exact ⟨below, fun k e from_ before at_ wq pasid => more (covered k e from_ before at_ wq pasid)⟩
  · intro c member
    obtain ⟨below, covered, before⟩ := ok.closed c member
    exact ⟨below, fun k e from_ before at_ wq pasid => more (covered k e from_ before at_ wq pasid),
      before⟩
  · intro k member
    rcases old k member with rfl | older
    · exact Nat.lt_of_lt_of_le lt below
    · exact ok.marks k older
  · intro k x at'
    rw [ok.skipped k x at']
    constructor
    · exact fun member => more member
    · intro member
      -- what is marked now has not been handled yet
      have handled : k < s.outcomes.length := (List.getElem?_eq_some_iff.mp at').1
      exact (old k member).resolve_left (by omega)

theorem Inv.away (ok : Inv size s) (before : (s.closer i).locks = false) (after : c.locks = false)
    (own : ∀ wq pasid upto, c.Behind wq pasid upto → upto ≤ s.logged.length ∧
      Covered s wq pasid s.outcomes.length upto) :
    Inv size { s with closer := Function.update s.closer i c } := by
  refine { ok with closerLock := ?_, marking := ?_, behind := ?_ }
  · intro j
    by_cases self : j = i
    · subst self
      simp only [Function.update_self]
      rw [after, ← before]
      exact ok.closerLock j
    · simpa only [Function.update_of_ne self] using ok.closerLock j
  · intro j wq' pasid' h t pos' upto' marking
    by_cases self : j = i
    · subst self
      simp only [Function.update_self] at marking
      simp [marking, Closer.locks] at after
    · simp only [Function.update_of_ne self] at marking
      exact ok.marking j wq' pasid' h t pos' upto' marking
  · intro j wq' pasid' upto' behind
    exact ok.behind_update behind (own wq' pasid' upto')

theorem inv_closer (ok : Inv size s) (taken : closerStep size s i = some t) : Inv size t := by
  unfold closerStep at taken
  dsimp only at taken
  split at taken
  next => contradiction
  next wq pasid h t' pos upto at_ =>
    obtain ⟨h_eq, t_eq, le, le', below, covered⟩ := ok.marking i wq pasid h t' pos upto at_
    split at taken
    next done =>
      cases taken
      have all : pos = upto := Ring.slot_injective ok.room (Nat.le_trans ok.released le)
        (Nat.le_trans le' below) (Nat.le_trans ok.released (Nat.le_trans le le')) below
        (h_eq.symm.trans (done.trans t_eq))
      have locked : s.lock = some (.closer i) := (ok.closerLock i).mpr (by simp [at_, Closer.locks])
      refine { ok with miscLock := ?_, closerLock := ?_, marking := ?_, behind := ?_ }
      · simpa [locked] using ok.miscLock
      · intro j
        by_cases self : j = i
        · subst self
          simp [Closer.locks]
        · have other := ok.closerLock j
          rw [locked] at other
          simpa [Function.update_of_ne self, Ne.symm self] using other
      · intro j wq' pasid' h t pos' upto' marking
        by_cases self : j = i
        · subst self
          simp at marking
        · simp only [Function.update_of_ne self] at marking
          exact ok.marking j wq' pasid' h t pos' upto' marking
      · intro j wq' pasid' upto' behind
        apply ok.behind_update behind
        rintro ⟨⟩
        exact ⟨below, all ▸ covered⟩
    next on =>
      split at taken
      next own =>
        cases taken
        apply ok.mark at_ on
        · exact List.subset_cons_self _ _
        · exact fun k member => List.mem_cons.mp member
        · intro slot
          by_cases self : slot = h
          · subst self
            simp only [Function.update_self, true_iff]
            exact ⟨pos, List.mem_cons_self, le, h_eq.symm⟩
          · rw [Function.update_of_ne self, ok.bmap]
            constructor
            · exact fun ⟨k, member, from_, same⟩ => ⟨k, List.mem_cons_of_mem _ member, from_, same⟩
            · rintro ⟨k, member, from_, same⟩
              rcases List.mem_cons.mp member with rfl | older
              · exact absurd (same.symm.trans h_eq.symm) self
              · exact ⟨k, older, from_, same⟩
        · exact fun _ _ => List.mem_cons_self
      next other =>
        cases taken
        apply ok.mark at_ on
        · exact fun _ => id
        · exact fun k => .inr
        · exact ok.bmap
        · exact fun wq pasid => absurd ⟨pasid, wq⟩ other
  next wq pasid upto at_ =>
    cases taken
    refine { ok.away (c := .flushing wq pasid upto) (by simp [at_, Closer.locks]) rfl ?_ with }
    rintro wq' pasid' upto' ⟨⟩
    exact ok.behind i wq pasid upto (at_ ▸ .marked)
  next wq pasid upto at_ =>
    split at taken
    next empty =>
      cases taken
      obtain ⟨below, covered⟩ := ok.behind i wq pasid upto (at_ ▸ .flushing)
      refine { ok.away (c := .away) (by simp [at_, Closer.locks]) rfl (by rintro _ _ _ ⟨⟩) with
        closed := ?_ }
      intro c member
      rcases List.mem_cons.mp member with rfl | older
      · refine ⟨below, covered, ?_⟩
        intro w work wq pasid
        have other := List.all_eq_true.mp empty w work
        simp [wq] at other
      · exact ok.closed c older
    next => contradiction

end

theorem inv_step (ok : Inv size s) (taken : step size s a = some t) : Inv size t := by
  cases a with
  | log e => exact inv_log ok taken
  | misc alloc => exact inv_misc ok taken
  | run w =>
    simp only [step, Option.ite_none_right_eq_some, Option.some.injEq] at taken
    exact taken.2 ▸ inv_run ok
  | close i wq pasid =>
    simp only [step, Option.ite_none_right_eq_some, Option.some.injEq] at taken
    exact taken.2 ▸ inv_close ok taken.1.1 taken.1.2
  | closer i => exact inv_closer ok taken

theorem inv_of_run (pos : 0 < size) (run : Run size h s) : Inv size s :=
  run.invariant (inv_initial pos) fun _ _ _ ok taken => inv_step ok taken

end DsaTest.Driver.EventLog
