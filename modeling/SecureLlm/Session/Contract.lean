import SecureLlm.Session.Process

/-!
# What the Tasks of a Process Promise Each Other

The contract every session task keeps, whatever the others do while it is
suspended. Its invariant says that the table only maps ids to objects with
those ids, that every object is of a given kind, and that the history of each
object is a chain of changes in which sealed counters strictly rise. Its rely
is that objects only evolve and the history only grows. Its guarantee adds that
a task leaves the table entries of other sessions alone, except to drop them, and
seals nothing, which is left to the handlers. Its permission is to ask Redis about
the task's own session only.

What kind of object is meant is a parameter, a `Discipline`: a predicate on
sessions that no change breaks and that survives being written and read back.
Facts about keys and facts about counters are instances of it.

## Main definitions

* `Discipline`: What a run knows of its sessions, records and notes.
* `Process.Consistent`: The invariant.
* `Process.Grows`: What may happen to a process while a task is suspended.
* `Process.Quiet`: No envelope has been sealed.
* `Terms`: The terms a task is run on.
* `Terms.contract`: The contract.

## Theorems

* `Process.Grows.trans`: Growth composes.
* `Terms.alloc_ok`, `Terms.change_ok`, `Terms.assign_ok`, `Terms.drop_ok`,
  `Terms.setLocked_ok`, `Terms.stored_ok`: Each change keeps the contract.
* `Terms.safe_closedTo`: Putting more sessions off limits.
-/

namespace SecureLlm

open Library

/-- What a run knows: of every session object, of every session whose record
    Redis may hold, and of every note. -/
structure Discipline where
  kind : Session → Prop
  written : Session → Prop
  noted : Note → Prop
  kind_evolves : ∀ s t, s.Evolves t → kind s → kind t
  kind_rehydrated : ∀ s, written s → kind s.rehydrated
  noted_created : ∀ r s, kind s → noted ⟨r, s, .created⟩
  noted_hydrated : ∀ r s, written s → noted ⟨r, s.rehydrated, .hydrated⟩
  noted_stored : ∀ r s, kind s → noted ⟨r, s, .stored⟩

/-- Of two notes on one object the newer is about a later state, is not about
    its making, and if an envelope was sealed its counter is new. -/
def Note.After (newer older : Note) : Prop :=
  newer.ref = older.ref → newer.kind ≠ .created ∧ newer.kind ≠ .hydrated ∧
    older.session.Evolves newer.session ∧
    ∀ d, newer.kind = .sealed d → older.session.s2cCounter < newer.session.s2cCounter

/-- An envelope was sealed. -/
def Note.isSealed (n : Note) : Bool :=
  match n.kind with
  | .sealed _ => true
  | _ => false

theorem Note.isSealed_of_kind {n : Note} {d : DirectionKeys} (h : n.kind = .sealed d) :
    n.isSealed = true := by
  rw [isSealed, h]

namespace Process

structure Consistent (D : Discipline) (p : Process) : Prop where
  table : ∀ sid r, p.table.get? sid = some r → r < p.next ∧ (p.heap r).sessionId = sid
  kind : ∀ r, r < p.next → D.kind (p.heap r)
  notes : ∀ n ∈ p.history, n.ref < p.next ∧ n.session.Evolves (p.heap n.ref) ∧ D.noted n
  ordered : p.history.Pairwise Note.After

/-- The history has grown by notes of which none is about an envelope. -/
def Quiet (p q : Process) : Prop :=
  ∃ notes, q.history = notes ++ p.history ∧ ∀ n ∈ notes, n.isSealed = false

theorem Quiet.of_eq {p q : Process} (h : q.history = p.history) : p.Quiet q :=
  ⟨[], h, fun _ hn => absurd hn List.not_mem_nil⟩

theorem Quiet.trans {p q u : Process} (hpq : p.Quiet q) (hqu : q.Quiet u) : p.Quiet u := by
  rcases hpq with ⟨notes, hq, hnotes⟩
  rcases hqu with ⟨notes', hu, hnotes'⟩
  refine ⟨notes' ++ notes, by rw [hu, hq, List.append_assoc], fun n hn => ?_⟩
  rcases List.mem_append.mp hn with h | h
  · exact hnotes' n h
  · exact hnotes n h

/-- Objects are only made and only evolve, and the history only grows. -/
structure Grows (p q : Process) : Prop where
  next : p.next ≤ q.next
  evolves : ∀ r, r < p.next → (p.heap r).Evolves (q.heap r)
  history : p.history <:+ q.history

theorem Grows.refl (p : Process) : p.Grows p :=
  ⟨le_refl _, fun _ _ => Session.Evolves.refl _, List.suffix_rfl⟩

theorem Grows.trans (p q u : Process) (hpq : p.Grows q) (hqu : q.Grows u) : p.Grows u :=
  ⟨hpq.next.trans hqu.next, fun r hr => (hpq.evolves r hr).trans _ _ _
    (hqu.evolves r (lt_of_lt_of_le hr hpq.next)), hpq.history.trans hqu.history⟩

/-- A process that has just started has nothing in it. -/
theorem consistent_start (D : Discipline) : start.Consistent D where
  table _ _ h := absurd h nofun
  kind _ hr := absurd hr (Nat.not_lt_zero _)
  notes _ hn := absurd hn List.not_mem_nil
  ordered := List.Pairwise.nil

variable (D : Discipline) (p : Process)

theorem alloc_grows (s : Session) (kind : NoteKind) : p.Grows (p.alloc s kind) where
  next := Nat.le_succ _
  evolves r hr := by
    rw [heap_alloc_of_lt p s kind r hr]
    exact Session.Evolves.refl _
  history := List.suffix_cons _ _

theorem alloc_consistent (s : Session) (kind : NoteKind) (h : p.Consistent D) (hs : D.kind s)
    (hn : D.noted ⟨p.next, s, kind⟩) : (p.alloc s kind).Consistent D where
  table sid r hr := by
    obtain ⟨hlt, hsid⟩ := h.table sid r hr
    refine ⟨Nat.lt_succ_of_lt hlt, ?_⟩
    rw [heap_alloc_of_lt p s kind r hlt, hsid]
  kind r hr := by
    by_cases hnew : r = p.next
    · rw [hnew, heap_alloc_self]
      exact hs
    · have hlt : r < p.next := Nat.lt_of_le_of_ne (Nat.lt_succ_iff.mp hr) hnew
      rw [heap_alloc_of_lt p s kind r hlt]
      exact h.kind r hlt
  notes n hmem := by
    rcases List.mem_cons.mp hmem with rfl | hmem
    · refine ⟨Nat.lt_succ_self _, ?_, hn⟩
      rw [heap_alloc_self]
      exact Session.Evolves.refl _
    · obtain ⟨hlt, hev, hnoted⟩ := h.notes n hmem
      refine ⟨Nat.lt_succ_of_lt hlt, ?_, hnoted⟩
      rw [heap_alloc_of_lt p s kind _ hlt]
      exact hev
  ordered := List.pairwise_cons.mpr
    ⟨fun n hmem heq => absurd heq.symm (Nat.ne_of_lt (h.notes n hmem).1), h.ordered⟩

theorem change_grows (r : Ref) (f : Session → Session) (hf : (p.heap r).Evolves (f (p.heap r))) :
    p.Grows (p.change r f) where
  next := le_refl _
  evolves x _ := by
    by_cases hx : x = r
    · rw [hx, heap_change_self]
      exact hf
    · rw [heap_change_of_ne p r x f hx]
      exact Session.Evolves.refl _
  history := List.suffix_rfl

theorem change_consistent (r : Ref) (f : Session → Session) (h : p.Consistent D)
    (hf : (p.heap r).Evolves (f (p.heap r))) : (p.change r f).Consistent D where
  table sid x hx := by
    obtain ⟨hlt, hsid⟩ := h.table sid x hx
    exact ⟨hlt, (((p.change_grows r f hf).evolves x hlt).sessionId).trans hsid⟩
  kind x hx := D.kind_evolves _ _ ((p.change_grows r f hf).evolves x hx) (h.kind x hx)
  notes n hmem := by
    obtain ⟨hlt, hev, hnoted⟩ := h.notes n hmem
    exact ⟨hlt, hev.trans _ _ _ ((p.change_grows r f hf).evolves _ hlt), hnoted⟩
  ordered := h.ordered

theorem assign_consistent (r : Ref) (h : p.Consistent D) (hr : r < p.next) :
    (p.assign (p.heap r).sessionId r).Consistent D where
  table sid x hx := by
    rw [table_assign, Dict.get?_set] at hx
    by_cases hsid : sid = (p.heap r).sessionId
    · rw [if_pos hsid, Option.some.injEq] at hx
      rw [← hx]
      exact ⟨hr, hsid.symm⟩
    · rw [if_neg hsid] at hx
      exact h.table sid x hx
  kind := h.kind
  notes := h.notes
  ordered := h.ordered

theorem drop_consistent (sid : Bytes) (h : p.Consistent D) : (p.drop sid).Consistent D where
  table x r hr := by
    rw [table_drop, Dict.get?_erase] at hr
    by_cases hx : x = sid
    · rw [if_pos hx] at hr
      exact absurd hr nofun
    · rw [if_neg hx] at hr
      exact h.table x r hr
  kind := h.kind
  notes := h.notes
  ordered := h.ordered

theorem quiet_cons {q : Process} {n : Note} (h : q.history = n :: p.history)
    (hn : n.isSealed = false) : p.Quiet q := by
  refine ⟨[n], h, fun m hm => ?_⟩
  rw [List.mem_singleton.mp hm]
  exact hn

theorem note_grows (r : Ref) (kind : NoteKind) : p.Grows (p.note r kind) :=
  ⟨le_refl _, fun _ _ => Session.Evolves.refl _, List.suffix_cons _ _⟩

/-- Noting a session as it is now continues its chain. A sealed envelope has to
    bring a counter that no note has. -/
theorem note_consistent (r : Ref) (kind : NoteKind) (h : p.Consistent D) (hr : r < p.next)
    (hmake : kind ≠ .created ∧ kind ≠ .hydrated) (hn : D.noted ⟨r, p.heap r, kind⟩)
    (hsealed : ∀ d, kind = .sealed d → ∀ n ∈ p.history, n.ref = r →
      n.session.s2cCounter < (p.heap r).s2cCounter) : (p.note r kind).Consistent D where
  table := h.table
  kind := h.kind
  notes n hmem := by
    rcases List.mem_cons.mp hmem with rfl | hmem
    · exact ⟨hr, Session.Evolves.refl _, hn⟩
    · exact h.notes n hmem
  ordered := by
    refine List.pairwise_cons.mpr ⟨fun n hmem heq => ?_, h.ordered⟩
    refine ⟨hmake.1, hmake.2, ?_, fun d hd => hsealed d hd n hmem heq.symm⟩
    have hev := (h.notes n hmem).2.1
    rwa [← show r = n.ref from heq] at hev

end Process

/-- The terms a task is run on: what its run knows, the one session it is about
    if any, the sessions that are off limits to it, and whether it may ask
    Redis and make session objects. -/
structure Terms where
  discipline : Discipline
  target : Option Bytes
  off : Set Bytes
  remote : Bool

namespace Terms

variable (T : Terms)

/-- What other tasks may do meanwhile. -/
def Rely (p q : Process) : Prop := p.Grows q ∧ (T.remote = false → q.next = p.next)

/-- A task drops table entries of other sessions at most. -/
def Frame (p q : Process) : Prop :=
  ∀ sid, T.target ≠ some sid → q.table.get? sid = none ∨ q.table.get? sid = p.table.get? sid

/-- The commands a task may send: about its own session, and a write only of a
    session that was noted as written. -/
def Permitted (p : Process) : RedisCall → Prop
  | .get name => ∃ sid, T.target = some sid ∧ name = redisKey sid
  | .delete name => ∃ sid, T.target = some sid ∧ name = redisKey sid
  | .set name value _ => ∃ sid, T.target = some sid ∧ name = redisKey sid ∧ sid ∉ T.off ∧
      ∃ n ∈ p.history, n.kind = .stored ∧ n.session.sessionId = sid ∧ value = serialize n.session

/-- The records Redis may answer with: written in the run, under the key of
    their session. -/
def Answers : (c : RedisCall) → RedisReply c → Prop
  | .get name, r => ∀ value : Record, (r : Option Record) = some value →
      ∃ s, T.discipline.written s ∧ value = serialize s ∧ name = redisKey s.sessionId ∧
        s.sessionId ∉ T.off
  | .set _ _ _, _ => True
  | .delete _, _ => True

/-- The contract of a session task. -/
def contract : Contract Process RedisCall RedisReply where
  inv p := p.Consistent T.discipline ∧ ∀ sid ∈ T.off, p.table.get? sid = none
  rely := T.Rely
  guar p q := T.Rely p q ∧ T.Frame p q ∧ p.Quiet q
  perm p c := T.remote = true ∧ T.Permitted p c
  reply := T.Answers
  rely_trans p q u hpq hqu := ⟨hpq.1.trans _ _ _ hqu.1, fun h => (hqu.2 h).trans (hpq.2 h)⟩
  guar_refl p := ⟨⟨Process.Grows.refl p, fun _ => rfl⟩, fun _ _ => Or.inr rfl, .of_eq rfl⟩
  guar_trans p q u hpq hqu := by
    refine ⟨⟨hpq.1.1.trans _ _ _ hqu.1.1, fun h => (hqu.1.2 h).trans (hpq.1.2 h)⟩, ?_,
      hpq.2.2.trans hqu.2.2⟩
    intro sid hsid
    rcases hqu.2.1 sid hsid with h | h
    · exact Or.inl h
    · rw [h]
      exact hpq.2.1 sid hsid
  guar_rely _ _ h := h.1
  perm_stable p q c hpq h := by
    refine ⟨h.1, ?_⟩
    cases c with
    | get name => exact h.2
    | delete name => exact h.2
    | set name value ex =>
        -- What a record is written from stays in the history.
        obtain ⟨sid, ht, hname, hoff, n, hmem, hrest⟩ := h.2
        exact ⟨sid, ht, hname, hoff, n, hpq.1.history.subset hmem, hrest⟩

variable (p : Process)

theorem alloc_ok (s : Session) (kind : NoteKind) (hremote : T.remote = true)
    (h : T.contract.inv p) (hs : T.discipline.kind s)
    (hn : T.discipline.noted ⟨p.next, s, kind⟩)
    (hquiet : Note.isSealed ⟨p.next, s, kind⟩ = false) :
    T.contract.inv (p.alloc s kind) ∧ T.contract.guar p (p.alloc s kind) :=
  ⟨⟨p.alloc_consistent _ s kind h.1 hs hn, h.2⟩,
    ⟨p.alloc_grows s kind, fun hc => absurd (hc.symm.trans hremote) nofun⟩,
    fun _ _ => Or.inr rfl, p.quiet_cons rfl hquiet⟩

theorem change_ok (r : Ref) (f : Session → Session) (h : T.contract.inv p)
    (hf : (p.heap r).Evolves (f (p.heap r))) :
    T.contract.inv (p.change r f) ∧ T.contract.guar p (p.change r f) :=
  ⟨⟨p.change_consistent _ r f h.1 hf, h.2⟩, ⟨p.change_grows r f hf, fun _ => rfl⟩,
    fun _ _ => Or.inr rfl, .of_eq rfl⟩

theorem assign_ok (r : Ref) (h : T.contract.inv p) (hr : r < p.next)
    (ht : T.target = some (p.heap r).sessionId) (hoff : (p.heap r).sessionId ∉ T.off) :
    T.contract.inv (p.assign (p.heap r).sessionId r) ∧
      T.contract.guar p (p.assign (p.heap r).sessionId r) := by
  refine ⟨⟨p.assign_consistent _ r h.1 hr, fun sid hsid => ?_⟩,
    ⟨⟨le_refl _, fun _ _ => Session.Evolves.refl _, List.suffix_rfl⟩, fun _ => rfl⟩,
    fun sid hsid => ?_, .of_eq rfl⟩
  · have hne : sid ≠ (p.heap r).sessionId := by
      rintro rfl
      exact hoff hsid
    rw [Process.table_assign, Dict.get?_set, if_neg hne]
    exact h.2 sid hsid
  · have hne : sid ≠ (p.heap r).sessionId := by
      rintro rfl
      exact hsid ht
    rw [Process.table_assign, Dict.get?_set, if_neg hne]
    exact Or.inr rfl

theorem drop_ok (sid : Bytes) (h : T.contract.inv p) :
    T.contract.inv (p.drop sid) ∧ T.contract.guar p (p.drop sid) := by
  have hdrop : ∀ x, (p.drop sid).table.get? x = none ∨
      (p.drop sid).table.get? x = p.table.get? x := by
    intro x
    rw [Process.table_drop, Dict.get?_erase]
    by_cases hx : x = sid
    · exact Or.inl (if_pos hx)
    · exact Or.inr (if_neg hx)
  refine ⟨⟨p.drop_consistent _ sid h.1, fun x hx => ?_⟩,
    ⟨⟨le_refl _, fun _ _ => Session.Evolves.refl _, List.suffix_rfl⟩, fun _ => rfl⟩,
    fun x _ => hdrop x, .of_eq rfl⟩
  rcases hdrop x with hnone | hsame
  · exact hnone
  · rw [hsame]
    exact h.2 x hx

theorem setLocked_ok (b : Bool) (h : T.contract.inv p) :
    T.contract.inv (p.setLocked b) ∧ T.contract.guar p (p.setLocked b) :=
  ⟨⟨⟨h.1.table, h.1.kind, h.1.notes, h.1.ordered⟩, h.2⟩,
    ⟨⟨le_refl _, fun _ _ => Session.Evolves.refl _, List.suffix_rfl⟩, fun _ => rfl⟩,
    fun _ _ => Or.inr rfl, .of_eq rfl⟩

theorem stored_ok (r : Ref) (h : T.contract.inv p) (hr : r < p.next) :
    T.contract.inv (p.note r .stored) ∧ T.contract.guar p (p.note r .stored) :=
  ⟨⟨p.note_consistent _ r .stored h.1 hr ⟨nofun, nofun⟩
      (T.discipline.noted_stored r _ (h.1.kind r hr)) nofun, h.2⟩,
    ⟨p.note_grows r .stored, fun _ => rfl⟩, fun _ _ => Or.inr rfl, p.quiet_cons rfl rfl⟩

/-- The same terms with more sessions off limits. -/
def closedTo (O : Set Bytes) : Terms := { T with off := O }

/-- A task that is not about the sessions that become off limits goes on safely
    once they are. -/
theorem safe_closedTo {α : Type} (O : Set Bytes) (hO : T.off ⊆ O)
    (htarget : ∀ sid, T.target = some sid → sid ∈ O → sid ∈ T.off) (post : α → Process → Prop)
    (task : Task α) (hinv : (T.closedTo O).contract.inv p) (h : task.Safe T.contract post p) :
    task.Safe (T.closedTo O).contract post p := by
  have hweaken : ∀ q, (T.closedTo O).contract.inv q → T.contract.inv q :=
    fun q hq => ⟨hq.1, fun sid hsid => hq.2 sid (hO hsid)⟩
  induction task generalizing p with
  | done a => exact h
  | fail e => trivial
  | now next ih => exact fun t => ih t p hinv (h t)
  | step upd next ih =>
      have hinv' : (T.closedTo O).contract.inv (upd p) := by
        refine ⟨h.1.1, fun sid hsid => ?_⟩
        by_cases ht : T.target = some sid
        · exact h.1.2 sid (htarget sid ht hsid)
        · -- Entries of other sessions are dropped at most.
          rcases h.2.1.2.1 sid ht with hnone | hsame
          · exact hnone
          · rw [hsame]
            exact hinv.2 sid hsid
      exact ⟨hinv', h.2.1, ih p (upd p) hinv' h.2.2⟩
  | wait ready next ih => exact fun t ht hg hready => ih t ht (h t (hweaken t ht) hg hready)
  | call c next ih =>
      refine ⟨⟨h.1.1, ?_⟩, fun t r ht hg hr => ih r t ht (h.2 t r (hweaken t ht) hg ?_)⟩
      · have hperm := h.1.2
        cases c with
        | get name => exact hperm
        | delete name => exact hperm
        | set name value ex =>
            rcases hperm with ⟨sid, ht, hname, hoff, hnote⟩
            exact ⟨sid, ht, hname, fun hc => hoff (htarget sid ht hc), hnote⟩
      · cases c with
        | get name =>
            intro value hvalue
            rcases hr value hvalue with ⟨s, hwritten, heq, hname, hoff⟩
            exact ⟨s, hwritten, heq, hname, fun hc => hoff (hO hc)⟩
        | set name value ex => trivial
        | delete name => trivial

end Terms

end SecureLlm
