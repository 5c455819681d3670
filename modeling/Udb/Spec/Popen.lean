import Udb.ForStd.Trace
import Udb.Native.Popen

/-!
# Two calls of `uvc_popen` at a time

The output of a program ends when nobody holds the end of its pipe that is written.
`uvc_popen` closes in each child what belongs to other streams, as far as `childpid`
knows them. Between `pipe` and the store to `childpid`, and between the store of 0
and `fclose`, the descriptors of a call are not there, and a child that another
thread makes in this time inherits them. Nor are those of a stream there whose array
was replaced, because two calls found `childpid` to be null.

## Key results

- `isolated_iff`: the runs in which no program holds a pipe of another
- `exists_pids`: without a failed `calloc`, the array is there when a child is stored in it
-/

namespace Udb.Spec

open Fds Steps Udb.Native

variable {maxfd : Nat} {s s' : Sys} {t t' r w pid fd pipe : Nat} {write : Bool} {c : Call}

/-! ## What a child inherits -/

section Child

variable {childpid : Nat → Nat} {fds : Table}

/-- What a process will have when it has taken the calls in front of its `execlp`, and nothing if
    it dies on the way. -/
def left (p : Proc) : Table := p.todo.foldl (fun fds c => c.run fds) p.fds

/-- A program has what it has. -/
private theorem left_of_nil {p : Proc} (h : p.todo = []) : left p = p.fds := by
  rw [left, h]
  rfl

/-- A call that is taken is one of those that were to come. -/
private theorem left_childCall {p : Proc} {c : ChildCall} {todo : List ChildCall}
    (h : p.todo = c :: todo) : left { p with fds := c.run p.fds, todo := todo } = left p := by
  rw [left, left, h]
  rfl

/-- What a child of a stream has left, in closed form. -/
def childFds (maxfd : Nat) (childpid : Nat → Nat) (r w : Nat) (fds : Table) : Table :=
  let fds := fds.close r
  let fds :=
    if w ≠ stdoutFileno then
      ((fds.dup2 w stdoutFileno).dup2 w stderrFileno).close w
    else fds
  fun i => if i < maxfd ∧ 0 < childpid i then none else fds i

/-- Closing one descriptor after the other. -/
private theorem foldl_close (l : List Nat) (fds : Table) :
    (l.map ChildCall.close).foldl (fun fds c => c.run fds) fds =
      fun i => if i ∈ l then none else fds i := by
  induction l generalizing fds with
  | nil => simp
  | cons fd l ih =>
    rw [List.map_cons, List.foldl_cons, ih]
    funext i
    by_cases hi : i = fd
    · -- The descriptor that is closed now may be closed again later.
      subst hi
      simp [ChildCall.run]
    · simp [ChildCall.run, Table.close_of_ne hi, hi]

/-- The calls in front of `execlp` come down to that. -/
private theorem left_child (family : Nat) :
    left ⟨family, fds, childCalls maxfd (some childpid) r w⟩ =
      childFds maxfd childpid r w fds := by
  unfold left childCalls childFds
  dsimp only
  rw [List.foldl_append, foldl_close, List.foldl_cons]
  funext i
  simp only [List.mem_filter, List.mem_range, decide_eq_true_eq]
  -- The parent's end of the pipe may be the standard output itself.
  split
  · rfl
  · by_cases hw : w ≠ stdoutFileno
    · rw [if_pos hw, if_pos hw]
      rfl
    · rw [if_neg hw, if_neg hw]
      rfl

/-- Without the array the child does not come to its `execlp`. -/
private theorem left_child_none (family : Nat) :
    left ⟨family, fds, childCalls maxfd none r w⟩ = fun _ => none := by
  unfold left childCalls
  dsimp only
  rw [List.foldl_append]
  rfl

/-- A child has the end that is written to it, and what is not closed on the way. -/
private theorem at_childFds (h : (childFds maxfd childpid r w fds).At fd pipe write) :
    fds.At w pipe write ∨
      fd ≠ r ∧ ¬ (fd < maxfd ∧ 0 < childpid fd) ∧ fds.At fd pipe write := by
  unfold childFds at h
  have hcopy : (fds.close r).At w pipe write → fds.At w pipe write :=
    fun hw => (Table.at_close_iff.mp hw).2
  by_cases hstored : fd < maxfd ∧ 0 < childpid fd
  · simp [Table.At, hstored] at h
  · have hkeep : (fds.close r).At fd pipe write →
        fd ≠ r ∧ ¬ (fd < maxfd ∧ 0 < childpid fd) ∧ fds.At fd pipe write := fun hfd =>
      ⟨(Table.at_close_iff.mp hfd).1, hstored, (Table.at_close_iff.mp hfd).2⟩
    simp only [Table.At, hstored, if_false] at h
    split at h
    · obtain ⟨-, h⟩ := Table.at_close_iff.mp h
      -- The two copies of `pfd[1]`, and everything else.
      by_cases herr : fd = stderrFileno
      · subst herr
        rw [Table.At, Table.dup2_self] at h
        by_cases hout : w = stdoutFileno
        · subst hout
          rw [Table.dup2_self] at h
          exact .inl (hcopy h)
        · rw [Table.dup2_of_ne hout] at h
          exact .inl (hcopy h)
      · rw [Table.At, Table.dup2_of_ne herr] at h
        by_cases hout : fd = stdoutFileno
        · subst hout
          rw [Table.dup2_self] at h
          exact .inl (hcopy h)
        · rw [Table.dup2_of_ne hout] at h
          exact .inr (hkeep h)
    · exact .inr (hkeep h)

/-- What is not stored is inherited. -/
private theorem childFds_of_ne (hr : fd ≠ r) (hw : fd ≠ w) (hstd : 3 ≤ fd)
    (hstored : childpid fd = 0) :
    childFds maxfd childpid r w fds fd = fds fd := by
  have hout : fd ≠ stdoutFileno := by
    unfold stdoutFileno
    omega
  have herr : fd ≠ stderrFileno := by
    unfold stderrFileno
    omega
  -- It is none of the descriptors that the child touches, and `childpid` has none there.
  simp only [childFds, hstored, Nat.lt_irrefl, and_false, if_false]
  split
  · rw [Table.close_of_ne hw, Table.dup2_of_ne herr, Table.dup2_of_ne hout, Table.close_of_ne hr]
  · rw [Table.close_of_ne hr]

end Child

/-! ## What a call owns -/

/-- The call has the descriptor `fd`, for the end that is written or for the other. -/
def Owns : Call → Nat → Bool → Prop
  | .piped r w, fd, write => fd = r ∧ write = false ∨ fd = w ∧ write = true
  | .forked r w _, fd, write => fd = r ∧ write = false ∨ fd = w ∧ write = true
  | .closed r _, fd, write => fd = r ∧ write = false
  | .reading r, fd, write => fd = r ∧ write = false
  | .cleared r _, fd, write => fd = r ∧ write = false
  | .idle, _, _ => False
  | .first, _, _ => False
  | .ready, _, _ => False
  | .waiting _, _, _ => False

/-- The child that the call has started, and not yet stored or taken back. -/
def Carries : Call → Nat → Prop
  | .forked _ _ pid, q => q = pid
  | .closed _ pid, q => q = pid
  | .cleared _ pid, q => q = pid
  | .waiting pid, q => q = pid
  | _, _ => False

/-- The calls behind a step of call `t`. -/
private theorem update_cases (P : Call → Prop) {calls : Nat → Call}
    (h : P (Function.update calls t c t')) :
    t' = t ∧ P c ∨ t' ≠ t ∧ P (calls t') := by
  by_cases ht : t' = t
  · subst ht
    rw [Function.update_self] at h
    exact .inl ⟨rfl, h⟩
  · rw [Function.update_of_ne ht] at h
    exact .inr ⟨ht, h⟩

/-- A call stands somewhere behind a step if it is the new one or one of the others. -/
private theorem exists_update_iff {calls : Nat → Call} {d : Call} :
    (∃ t', Function.update calls t c t' = d) ↔ c = d ∨ ∃ t', t' ≠ t ∧ calls t' = d := by
  constructor
  · intro h
    obtain ⟨t', ht'⟩ := h
    rcases update_cases (· = d) ht' with ⟨-, hc⟩ | ⟨hne, hd⟩
    · exact .inl hc
    · exact .inr ⟨t', hne, hd⟩
  · intro h
    rcases h with hc | ⟨t', hne, hd⟩
    · exact ⟨t, by rw [Function.update_self, hc]⟩
    · exact ⟨t', by rw [Function.update_of_ne hne, hd]⟩

/-- The processes behind a step of process `q`. -/
private theorem live_setProc {slot : Slot} {q q' : Nat} {ofServer : Bool} {p : Proc}
    (h : (s.setProc q slot).procs q' = .live ofServer p) :
    q' = q ∧ slot = .live ofServer p ∨ q' ≠ q ∧ s.procs q' = .live ofServer p := by
  by_cases hq : q' = q
  · subst hq
    exact .inl ⟨rfl, by simpa [Sys.setProc] using h⟩
  · exact .inr ⟨hq, by simpa [Sys.setProc, hq] using h⟩

/-- What holds in every run: each descriptor of a call is the end of its pipe that the call takes
    it for, nobody else in the server has another of that pipe, and `childpid` knows none but the
    streams that are open. -/
structure Kept (maxfd : Nat) (s : Sys) : Prop where
  isPipe : ∀ t, ∃ pipe, ∀ fd write, Owns (s.calls t) fd write → s.fds.At fd pipe write
  own : ∀ t t' fd write write', Owns (s.calls t) fd write → Owns (s.calls t') fd write' → t = t'
  whole : ∀ t fd write pipe, Owns (s.calls t) fd write → s.fds.At fd pipe write →
    ∀ fd' write', s.fds.At fd' pipe write' → Owns (s.calls t) fd' write'
  range : ∀ t fd write, Owns (s.calls t) fd write → fd < maxfd
  std : ∀ fd < 3, s.fds fd = some .other
  fresh : ∀ fd pipe write, s.fds.At fd pipe write → pipe < s.nextPipe
  freshProcs : ∀ q ofServer p, s.procs q = .live ofServer p →
    ∀ pipe write, (left p).Holds pipe write → pipe < s.nextPipe
  stored : ∀ fd, s.pidAt fd ≠ 0 → ∃ t, s.calls t = .reading fd
  pid : ∀ t q, Carries (s.calls t) q → 0 < q

namespace Kept

/-- Standard streams are no pipes. -/
private theorem three_le (h : Kept maxfd s) (ho : Owns (s.calls t) fd write) : 3 ≤ fd := by
  obtain ⟨pipe, hpipe⟩ := h.isPipe t
  by_contra hlt
  have hat := hpipe fd write ho
  rw [Table.At, h.std fd (by omega)] at hat
  simp at hat

/-- A call that takes a descriptor for one end does not take it for the other. -/
theorem end_inj (h : Kept maxfd s) {write' : Bool} (ho : Owns (s.calls t) fd write)
    (ho' : Owns (s.calls t) fd write') : write = write' := by
  obtain ⟨pipe, hpipe⟩ := h.isPipe t
  exact ((hpipe fd write ho).inj (hpipe fd write' ho')).2

/-- A step of one call that gives up some of its descriptors, and closes them or ends. -/
private theorem shrink (h : Kept maxfd s) (fds : Table) (childpid : Option (Nat → Nat))
    (hsub : ∀ fd write, Owns c fd write → Owns (s.calls t) fd write)
    (hfds : ∀ fd, fds fd = s.fds fd ∨
      fds fd = none ∧ ∃ write, Owns (s.calls t) fd write ∧ ¬ Owns c fd write)
    (hall : (∀ fd write, Owns (s.calls t) fd write → ¬ Owns c fd write → fds fd = none) ∨
      ∀ fd write, ¬ Owns c fd write)
    (hstored : ∀ fd, { s with childpid := childpid }.pidAt fd ≠ 0 →
      c = .reading fd ∨ ∃ t', t' ≠ t ∧ s.calls t' = .reading fd)
    (hpid : ∀ q, Carries c q → 0 < q) :
    Kept maxfd ({ s with fds := fds, childpid := childpid }.setCall t c) := by
  have hold : ∀ t' fd write, Owns (Function.update s.calls t c t') fd write →
      Owns (s.calls t') fd write := by
    intro t' fd write ho
    rcases update_cases (Owns · fd write) ho with ⟨rfl, hc⟩ | ⟨-, hc⟩
    · exact hsub fd write hc
    · exact hc
  -- What is still owned was not closed.
  have hsame : ∀ t' fd write, Owns (Function.update s.calls t c t') fd write →
      fds fd = s.fds fd := by
    intro t' fd write ho
    rcases hfds fd with heq | ⟨-, write', howned, hgone⟩
    · exact heq
    · obtain rfl := h.own t' t fd write write' (hold t' fd write ho) howned
      obtain rfl := h.end_inj (hold t' fd write ho) howned
      rw [Function.update_self] at ho
      exact absurd ho hgone
  have hat : ∀ fd pipe write, fds.At fd pipe write → s.fds.At fd pipe write := by
    intro fd pipe write hnew
    rcases hfds fd with heq | ⟨hnone, -⟩
    · rwa [Table.At, heq] at hnew
    · simp [Table.At, hnone] at hnew
  constructor
  · intro t'
    obtain ⟨pipe, hpipe⟩ := h.isPipe t'
    refine ⟨pipe, fun fd write ho => ?_⟩
    show fds fd = _
    rw [hsame t' fd write ho]
    exact hpipe fd write (hold t' fd write ho)
  · exact fun t₁ t₂ fd write write' h₁ h₂ =>
      h.own t₁ t₂ fd write write' (hold t₁ fd write h₁) (hold t₂ fd write' h₂)
  · intro t' fd write pipe ho hpipe fd' write' hpipe'
    have hown := h.whole t' fd write pipe (hold t' fd write ho) (hat fd pipe write hpipe) fd' write'
      (hat fd' pipe write' hpipe')
    by_cases ht : t' = t
    · subst ht
      show Owns (Function.update s.calls t' c t') fd' write'
      have hc : Owns c fd write := by simpa [Sys.setCall] using ho
      rw [Function.update_self]
      by_contra hgone
      rcases hall with hclosed | hnothing
      · have hnone := hclosed fd' write' hown hgone
        simp [Table.At, Sys.setCall, hnone] at hpipe'
      · exact hnothing fd write hc
    · show Owns (Function.update s.calls t c t') fd' write'
      rwa [Function.update_of_ne ht]
  · exact fun t' fd write ho => h.range t' fd write (hold t' fd write ho)
  · intro fd hfd
    rcases hfds fd with heq | ⟨-, write, howned, -⟩
    · exact heq.trans (h.std fd hfd)
    · have := h.three_le howned
      omega
  · exact fun fd pipe write hpipe => h.fresh fd pipe write (hat fd pipe write hpipe)
  · exact h.freshProcs
  · exact fun fd hpos => exists_update_iff.mpr (hstored fd hpos)
  · intro t' q hq
    rcases update_cases (Carries · q) hq with ⟨-, hc⟩ | ⟨-, hc⟩
    · exact hpid q hc
    · exact h.pid t' q hc

/-- A step of the processes, which may have new pipes. -/
private theorem processes (h : Kept maxfd s) {procs : Nat → Slot} {pipes : Nat}
    (hle : s.nextPipe ≤ pipes)
    (hprocs : ∀ q ofServer p, procs q = .live ofServer p →
      ∀ pipe write, (left p).Holds pipe write → pipe < pipes) :
    Kept maxfd { s with procs := procs, nextPipe := pipes } :=
  { h with
    fresh := fun fd pipe write hat => (h.fresh fd pipe write hat).trans_le hle
    freshProcs := hprocs }

/-- One process that holds no more than was held before. -/
theorem setProc (h : Kept maxfd s) (q : Nat) {slot : Slot}
    (hslot : ∀ ofServer p, slot = .live ofServer p →
      ∀ pipe write, (left p).Holds pipe write → pipe < s.nextPipe) :
    Kept maxfd (s.setProc q slot) := by
  refine h.processes (Nat.le_refl _) fun q' ofServer p hp => ?_
  rcases live_setProc hp with ⟨-, hp⟩ | ⟨-, hp⟩
  · exact hslot ofServer p hp
  · exact h.freshProcs q' ofServer p hp

/-- `childpid` behind a step of a call that was not reading. -/
private theorem stored_of_quiet (h : Kept maxfd s) (ht : ∀ fd, s.calls t ≠ .reading fd) (fd : Nat)
    (hpos : s.pidAt fd ≠ 0) :
    c = .reading fd ∨ ∃ t', t' ≠ t ∧ s.calls t' = .reading fd := by
  obtain ⟨t', ht'⟩ := h.stored fd hpos
  refine .inr ⟨t', ?_, ht'⟩
  rintro rfl
  exact ht fd ht'

/-- A step of one call that closes nothing, and gives up all or nothing. -/
theorem setCall (h : Kept maxfd s) (ht : ∀ fd, s.calls t ≠ .reading fd)
    (hpid : ∀ q, Carries c q → 0 < q)
    (howns : (∀ fd write, Owns c fd write ↔ Owns (s.calls t) fd write) ∨
      ∀ fd write, ¬ Owns c fd write) : Kept maxfd (s.setCall t c) := by
  refine h.shrink s.fds s.childpid ?_ (fun _ => .inl rfl) ?_ (h.stored_of_quiet ht) hpid
  · rcases howns with hsame | hnothing
    · exact fun fd write => (hsame fd write).mp
    · exact fun fd write ho => absurd ho (hnothing fd write)
  · rcases howns with hsame | hnothing
    · exact .inl fun fd write ho hgone => absurd ((hsame fd write).mpr ho) hgone
    · exact .inr hnothing

/-- What a call owns is open. -/
private theorem isSome_of_owns (h : Kept maxfd s) (ho : Owns (s.calls t) fd write)
    : s.fds fd ≠ none := by
  obtain ⟨pipe, hpipe⟩ := h.isPipe t
  rw [hpipe fd write ho]
  simp

section Pipe

/-- The descriptors of the server behind `pipe`. -/
theorem at_pipe (hne : r ≠ w) (h : (s.pipe t r w).fds.At fd pipe write) :
    pipe = s.nextPipe ∧ Owns (.piped r w) fd write ∨ fd ≠ r ∧ fd ≠ w ∧ s.fds.At fd pipe write := by
  unfold Sys.pipe Sys.setCall at h
  by_cases hfdw : fd = w
  · -- The end that is written.
    subst hfdw
    simp only [Table.At, Function.update_self, Option.some.injEq, Desc.pipe.injEq,
      End.mk.injEq] at h
    exact .inl ⟨h.1.symm, .inr ⟨rfl, h.2.symm⟩⟩
  · simp only [Table.At, Function.update_of_ne hfdw] at h
    by_cases hfdr : fd = r
    · -- The end that is read.
      subst hfdr
      simp only [Function.update_self, Option.some.injEq, Desc.pipe.injEq, End.mk.injEq] at h
      exact .inl ⟨h.1.symm, .inl ⟨rfl, h.2.symm⟩⟩
    · rw [Function.update_of_ne hfdr] at h
      exact .inr ⟨hfdr, hfdw, h⟩

/-- The new ends belong to the new pipe. -/
theorem at_pipe_self (hne : r ≠ w) (h : Owns (.piped r w) fd write) :
    (s.pipe t r w).fds.At fd s.nextPipe write := by
  unfold Sys.pipe Sys.setCall
  rcases h with ⟨rfl, rfl⟩ | ⟨rfl, rfl⟩
  · show Function.update (Function.update s.fds fd _) w _ fd = _
    rw [Function.update_of_ne hne, Function.update_self]
  · show Function.update (Function.update s.fds r _) fd _ fd = _
    rw [Function.update_self]

/-- The other descriptors are as they were. -/
theorem fds_pipe_of_ne (hr : fd ≠ r) (hw : fd ≠ w) : (s.pipe t r w).fds fd = s.fds fd := by
  show Function.update (Function.update s.fds r _) w _ fd = _
  rw [Function.update_of_ne hw, Function.update_of_ne hr]

/-- What is owned behind the call of `pipe` is new, or was owned by another call. -/
private theorem owns_pipe (h : Owns ((s.pipe t r w).calls t') fd write) :
    t' = t ∧ Owns (.piped r w) fd write ∨ t' ≠ t ∧ Owns (s.calls t') fd write :=
  update_cases (Owns · fd write) h

/-- A new pipe. -/
private theorem makePipe (h : Kept maxfd s) (ht : s.calls t = .ready) (hr : s.fds r = none)
    (hw : s.fds w = none) (hne : r ≠ w) (hr' : r < maxfd) (hw' : w < maxfd) :
    Kept maxfd (s.pipe t r w) := by
  -- Nobody has the two descriptors, and nobody's pipe has the new number.
  have hfree : ∀ fd, s.fds fd ≠ none → fd ≠ r ∧ fd ≠ w := by
    intro fd hopen
    exact ⟨fun hfd => hopen (hfd ▸ hr), fun hfd => hopen (hfd ▸ hw)⟩
  have hapart : ∀ t' fd write write', Owns (s.calls t') fd write →
      ¬ Owns (.piped r w) fd write' := by
    intro t' fd write write' ho hnew
    obtain ⟨hfdr, hfdw⟩ := hfree fd (h.isSome_of_owns ho)
    rcases hnew with ⟨hfd, -⟩ | ⟨hfd, -⟩
    · exact hfdr hfd
    · exact hfdw hfd
  have hold : ∀ t' fd write pipe, Owns (s.calls t') fd write →
      (s.pipe t r w).fds.At fd pipe write → s.fds.At fd pipe write := by
    intro t' fd write pipe ho hat
    rcases at_pipe hne hat with ⟨-, hnew⟩ | ⟨-, -, hold⟩
    · exact absurd hnew (hapart t' fd write write ho)
    · exact hold
  constructor
  · intro t'
    by_cases htt : t' = t
    · refine ⟨s.nextPipe, fun fd write ho => ?_⟩
      rcases owns_pipe ho with ⟨-, hnew⟩ | ⟨hne', -⟩
      · exact at_pipe_self hne hnew
      · exact absurd htt hne'
    · obtain ⟨pipe, hpipe⟩ := h.isPipe t'
      refine ⟨pipe, fun fd write ho => ?_⟩
      rcases owns_pipe ho with ⟨htt', -⟩ | ⟨-, ho'⟩
      · exact absurd htt' htt
      · obtain ⟨hfdr, hfdw⟩ := hfree fd (h.isSome_of_owns ho')
        rw [Table.At, fds_pipe_of_ne hfdr hfdw]
        exact hpipe fd write ho'
  · intro t₁ t₂ fd write write' h₁ h₂
    rcases owns_pipe h₁ with ⟨rfl, hnew⟩ | ⟨-, ho₁⟩
    · rcases owns_pipe h₂ with ⟨rfl, -⟩ | ⟨-, ho₂⟩
      · rfl
      · exact absurd hnew (hapart t₂ fd write' write ho₂)
    · rcases owns_pipe h₂ with ⟨rfl, hnew⟩ | ⟨-, ho₂⟩
      · exact absurd hnew (hapart t₁ fd write write' ho₁)
      · exact h.own t₁ t₂ fd write write' ho₁ ho₂
  · intro t' fd write pipe ho hat fd' write' hat'
    rcases owns_pipe ho with ⟨rfl, hnew⟩ | ⟨hne', ho'⟩
    · -- The new pipe is nowhere else.
      obtain ⟨rfl, -⟩ := hat.inj (at_pipe_self hne hnew)
      rcases at_pipe hne hat' with ⟨-, hnew'⟩ | ⟨-, -, hat''⟩
      · show Owns (Function.update s.calls t' _ t') fd' write'
        rwa [Function.update_self]
      · exact absurd (h.fresh fd' s.nextPipe write' hat'') (Nat.lt_irrefl _)
    · -- Another call has an older pipe.
      show Owns (Function.update s.calls t _ t') fd' write'
      rw [Function.update_of_ne hne']
      have hat₀ := hold t' fd write pipe ho' hat
      rcases at_pipe hne hat' with ⟨rfl, -⟩ | ⟨-, -, hat''⟩
      · exact absurd (h.fresh fd s.nextPipe write hat₀) (Nat.lt_irrefl _)
      · exact h.whole t' fd write pipe ho' hat₀ fd' write' hat''
  · intro t' fd write ho
    rcases owns_pipe ho with ⟨-, ⟨rfl, -⟩ | ⟨rfl, -⟩⟩ | ⟨-, ho'⟩
    · exact hr'
    · exact hw'
    · exact h.range t' fd write ho'
  · intro fd hfd
    have hstd := h.std fd hfd
    obtain ⟨hfdr, hfdw⟩ := hfree fd (by simp [hstd])
    rw [fds_pipe_of_ne hfdr hfdw, hstd]
  · intro fd pipe write hat
    show pipe < s.nextPipe + 1
    rcases at_pipe hne hat with ⟨rfl, -⟩ | ⟨-, -, hat'⟩
    · omega
    · have := h.fresh fd pipe write hat'
      omega
  · intro q ofServer p hp pipe write hat
    have := h.freshProcs q ofServer p hp pipe write hat
    show pipe < s.nextPipe + 1
    omega
  · intro fd hpos
    exact exists_update_iff.mpr (h.stored_of_quiet (by simp [ht]) fd hpos)
  · intro t' q hq
    rcases update_cases (Carries · q) hq with ⟨-, hc⟩ | ⟨-, hc⟩
    · exact hc.elim
    · exact h.pid t' q hc

end Pipe

/-- Closing the one descriptor of a call. -/
private theorem close_or {fds : Table} {c' : Call} (h : ∀ write, ¬ Owns c' r write) :
    fds.close r fd = fds fd ∨
      fds.close r fd = none ∧ ∃ write, Owns (.cleared r pid) fd write ∧ ¬ Owns c' fd write := by
  by_cases hfd : fd = r
  · subst hfd
    exact .inr ⟨Table.close_self, false, ⟨rfl, rfl⟩, h false⟩
  · exact .inl (Table.close_of_ne hfd)

/-- Other files of the server. -/
private theorem setFile (h : Kept maxfd s) {d : Option Desc} (hstd : 3 ≤ fd)
    (hold : s.fds fd = none ∨ s.fds fd = some .other) (hnew : d = none ∨ d = some .other) :
    Kept maxfd { s with fds := Function.update s.fds fd d } := by
  -- The ends of pipes are where they were.
  have hiff : ∀ fd' pipe write,
      Table.At (Function.update s.fds fd d) fd' pipe write ↔ s.fds.At fd' pipe write := by
    intro fd' pipe write
    by_cases hfd : fd' = fd
    · subst hfd
      rw [Table.At, Function.update_self, Table.At]
      rcases hold with hold | hold <;> rcases hnew with hnew | hnew <;> simp [hold, hnew]
    · rw [Table.At, Function.update_of_ne hfd, Table.At]
  exact
    { isPipe := fun t => (h.isPipe t).imp fun pipe hpipe fd' write ho =>
        (hiff fd' pipe write).mpr (hpipe fd' write ho)
      own := h.own
      whole := fun t fd' write pipe ho hat fd'' write' hat' =>
        h.whole t fd' write pipe ho ((hiff fd' pipe write).mp hat) fd'' write'
          ((hiff fd'' pipe write').mp hat')
      range := h.range
      std := by
        intro fd' hfd'
        show Function.update s.fds fd d fd' = _
        rw [Function.update_of_ne (by omega)]
        exact h.std fd' hfd'
      fresh := fun fd' pipe write hat => h.fresh fd' pipe write ((hiff fd' pipe write).mp hat)
      freshProcs := h.freshProcs
      stored := h.stored
      pid := h.pid }

/-- A child, with the descriptors that it keeps. -/
theorem fork (h : Kept maxfd s) (ht : s.calls t = .piped r w) (hpid : 0 < pid) :
    Kept maxfd (s.fork maxfd t r w pid) := by
  -- What the child holds, the server holds as well.
  have hchild : Kept maxfd (s.setProc pid
      (.live true ⟨s.pipeOf r, s.fds, childCalls maxfd s.childpid r w⟩)) := by
    refine h.setProc pid fun ofServer p hp pipe write hat => ?_
    simp only [Slot.live.injEq] at hp
    rw [← hp.2] at hat
    obtain ⟨fd, hat⟩ := hat
    cases hpids : s.childpid with
    | none =>
      rw [hpids, left_child_none] at hat
      cases hat
    | some pids =>
      rw [hpids, left_child] at hat
      rcases at_childFds hat with hat | ⟨-, -, hat⟩
      · exact h.fresh w pipe write hat
      · exact h.fresh fd pipe write hat
  apply hchild.setCall
  · simp [Sys.setProc, ht]
  · rintro q rfl
    exact hpid
  · refine .inl fun fd write => ?_
    simp [Sys.setProc, ht, Owns]

/-- The parent closes the end that its child writes to. -/
theorem closeWrite (h : Kept maxfd s) (ht : s.calls t = .forked r w pid) :
    Kept maxfd (s.closeWrite t r w pid) := by
  refine h.shrink (s.fds.close w) s.childpid ?_ (fun fd => ?_) (.inl ?_)
    (h.stored_of_quiet (by simp [ht])) ?_
  · rw [ht]
    exact fun fd write ho => .inl ho
  · -- The one descriptor that is closed is the end that is written.
    by_cases hfd : fd = w
    · subst hfd
      rw [ht]
      exact .inr ⟨Table.close_self, true, .inr ⟨rfl, rfl⟩, by simp [Owns]⟩
    · exact .inl (Table.close_of_ne hfd)
  · rw [ht]
    intro fd write ho hgone
    rcases ho with hr | ⟨rfl, -⟩
    · exact absurd hr hgone
    · exact Table.close_self
  · rintro q rfl
    exact h.pid t q (by rw [ht]; rfl)

/-- The stream is there, and `childpid` has its child. -/
theorem remember (h : Kept maxfd s) {pids : Nat → Nat} (ht : s.calls t = .closed r pid)
    (hpids : s.childpid = some pids) : Kept maxfd (s.remember t r pid pids) := by
  refine h.shrink s.fds (some (Function.update pids r pid)) ?_ (fun _ => .inl rfl) (.inl ?_)
    (fun fd hpos => ?_) (by simp [Carries])
  · rw [ht]
    exact fun fd write ho => ho
  · rw [ht]
    exact fun fd write ho hgone => absurd ho hgone
  · by_cases hfd : fd = r
    · -- The new entry is that of the call, which now reads.
      subst hfd
      exact .inl rfl
    · -- Any other was there before.
      refine h.stored_of_quiet (by simp [ht]) fd ?_
      rw [Sys.pidAt, hpids]
      simpa [Sys.pidAt, hfd] using hpos

/-- No other call reads from what call `t` has. -/
theorem ne_reading_of_owns (h : Kept maxfd s) (ho : Owns (s.calls t) r false) (hne : t' ≠ t) :
    s.calls t' ≠ .reading r := by
  intro hr
  exact hne (h.own t' t r false false (by rw [hr]; exact ⟨rfl, rfl⟩) ho)

/-- The call ends in front of a stream that `childpid` does not know. -/
private theorem dropStream (h : Kept maxfd s) (ht : s.calls t = .reading r) (hlost : s.pidAt r = 0)
    :
    Kept maxfd (s.setCall t .idle) := by
  refine h.shrink s.fds s.childpid (by simp [Owns]) (fun _ => .inl rfl) (.inr (by simp [Owns]))
    (fun fd hpos => ?_) (by simp [Carries])
  obtain ⟨t', ht'⟩ := h.stored fd hpos
  refine .inr ⟨t', ?_, ht'⟩
  rintro rfl
  obtain rfl := Call.reading.inj (ht.symm.trans ht')
  exact hpos hlost

/-- The child of a stream is looked up, and its place in `childpid` is free again. -/
theorem takePid (h : Kept maxfd s) (ht : s.calls t = .reading r) : Kept maxfd (s.takePid t r) := by
  unfold Sys.takePid
  cases hpids : s.childpid with
  | none => exact h.dropStream ht (by rw [Sys.pidAt, hpids])
  | some pids =>
    have hat : ∀ fd, s.pidAt fd = pids fd := fun fd => by rw [Sys.pidAt, hpids]
    dsimp only
    split
    · rename_i hlost
      exact h.dropStream ht ((hat r).trans hlost)
    · rename_i hpos
      refine h.shrink s.fds (some (Function.update pids r 0)) ?_ (fun _ => .inl rfl) (.inl ?_)
        (fun fd hfd => ?_) ?_
      · rw [ht]
        exact fun fd write ho => ho
      · rw [ht]
        exact fun fd write ho hgone => absurd ho hgone
      · -- What is still stored is the stream of another call.
        have hne : fd ≠ r := by
          rintro rfl
          simp [Sys.pidAt] at hfd
        have hold : s.pidAt fd ≠ 0 := by
          rw [hat]
          simpa [Sys.pidAt, hne] using hfd
        obtain ⟨t', ht'⟩ := h.stored fd hold
        refine .inr ⟨t', ?_, ht'⟩
        rintro rfl
        rw [ht] at ht'
        exact hne (Call.reading.inj ht').symm
      · rintro q rfl
        omega

/-- A call allocates the array, and what another has stored is lost. -/
theorem calloc (h : Kept maxfd s) (t : Nat) : Kept maxfd (s.calloc t) := by
  refine h.shrink s.fds (some fun _ => 0) (by simp [Owns]) (fun _ => .inl rfl)
    (.inr (by simp [Owns])) (fun fd hpos => ?_) (by simp [Carries])
  simp [Sys.pidAt] at hpos

/-- It fails to, and what another has stored is lost as well. -/
theorem callocFails (h : Kept maxfd s) (t : Nat) : Kept maxfd (s.callocFails t) := by
  refine h.shrink s.fds none (by simp [Owns]) (fun _ => .inl rfl)
    (.inr (by simp [Owns])) (fun fd hpos => ?_) (by simp [Carries])
  simp [Sys.pidAt] at hpos

/-- A call looks at `childpid`. -/
theorem test (h : Kept maxfd s) (ht : s.calls t = .idle) : Kept maxfd (s.test t) := by
  apply h.setCall (by simp [ht])
  · intro q hq
    cases hnull : s.childpid.isNone <;> simp [hnull, Carries] at hq
  · refine .inr fun fd write ho => ?_
    cases hnull : s.childpid.isNone <;> simp [hnull, Owns] at ho

/-- The stream is closed. The call owns nothing behind that, whether it goes on or not. -/
theorem fclose (h : Kept maxfd s) (ht : s.calls t = .cleared r pid)
    (hnothing : ∀ fd write, ¬ Owns c fd write) (hpid : ∀ q, Carries c q → 0 < q) :
    Kept maxfd (s.fclose t r c) := by
  refine h.shrink (s.fds.close r) s.childpid (fun fd write ho => absurd ho (hnothing fd write))
    (fun fd => ?_) (.inr hnothing) (h.stored_of_quiet (by simp [ht])) hpid
  rw [ht]
  exact close_or (hnothing r)

/-- A program has other descriptors, with pipes of its own. -/
theorem childFds (h : Kept maxfd s) {q pipes : Nat} {ofServer : Bool} {p : Proc} {fds : Table}
    (hq : s.procs q = .live ofServer p) (htodo : p.todo = []) (hle : s.nextPipe ≤ pipes)
    (hfds : ∀ pipe write, fds.Holds pipe write →
      p.fds.Holds pipe write ∨ s.nextPipe ≤ pipe ∧ pipe < pipes) :
    Kept maxfd
      { s.setProc q (.live ofServer { p with fds := fds }) with nextPipe := pipes } := by
  refine h.processes hle fun q' ofServer' p' hp pipe write hat => ?_
  rcases live_setProc hp with ⟨-, hp⟩ | ⟨-, hp⟩
  · simp only [Slot.live.injEq] at hp
    rw [← hp.2, @left_of_nil { p with fds := fds } htodo] at hat
    -- What the program had, it had before; what it did not have is one of its new pipes.
    rcases hfds pipe write hat with hold | ⟨-, hlt⟩
    · rw [← left_of_nil htodo] at hold
      exact (h.freshProcs q ofServer p hq pipe write hold).trans_le hle
    · exact hlt
  · exact (h.freshProcs q' ofServer' p' hp pipe write hat).trans_le hle

/-- What holds is kept by every step. -/
theorem step {e : PopenEvent} (h : Kept maxfd s) (hs : PopenStep maxfd s e s') : Kept maxfd s' := by
  cases hs with
  | test ht => exact h.test ht
  | @calloc t ht => exact h.calloc t
  | @callocFails t ht => exact h.callocFails t
  | pipe ht hr hw hne hr' hw' => exact h.makePipe ht hr hw hne hr' hw'
  | fork ht hpid hfree => exact h.fork ht hpid
  | getrlimitFails ht | pipeFails ht | forkFails ht | fdopenFails ht =>
    exact h.setCall (by simp [ht]) (by simp [Carries]) (.inr (by simp [Owns]))
  | closeWrite ht => exact h.closeWrite ht
  | remember ht hpids => exact h.remember ht hpids
  | takePid ht => exact h.takePid ht
  | fclose ht =>
    apply h.fclose ht (by simp [Owns])
    rintro q rfl
    exact h.pid _ q (by rw [ht]; rfl)
  | fcloseFails ht => exact h.fclose ht (by simp [Owns]) (by simp [Carries])
  | @wait t pid stat ht hz =>
    have hreaped : Kept maxfd (s.setProc pid .free) := h.setProc pid (by simp)
    exact hreaped.setCall (by simp [Sys.setProc, ht]) (by simp [Carries]) (.inr (by simp [Owns]))
  | file hstd hold hnew => exact h.setFile hstd hold hnew
  | @childCall q ofServer p c todo hq htodo hc =>
    -- What the child will have does not change on the way.
    refine h.setProc q fun ofServer' p' hp => ?_
    simp only [Slot.live.injEq] at hp
    rw [← hp.2, left_childCall htodo]
    exact h.freshProcs q ofServer p hq
  | @childFork q q' ofServer p hq htodo hpid hfree =>
    -- The new process has what the other has.
    refine h.setProc q' fun ofServer' p' hp => ?_
    simp only [Slot.live.injEq] at hp
    rw [← hp.2]
    exact h.freshProcs q ofServer p hq
  | childFds hq htodo hle hfds => exact h.childFds hq htodo hle hfds
  | exit hq => exact h.setProc _ (by simp)
  | reap hq => exact h.setProc _ (by simp)

end Kept

/-! ## Pipes of others -/

/-- The descriptors of the call are open, and `childpid` does not have them: it stands between
    `pipe` and the store of its child, or between the store of 0 and `fclose`, or the array that
    had its stream was replaced or lost. -/
def exposed (s : Sys) : Call → Bool
  | .piped _ _ => true
  | .forked _ _ _ => true
  | .closed _ _ => true
  | .reading r => s.pidAt r == 0
  | .cleared _ _ => true
  | .idle => false
  | .first => false
  | .ready => false
  | .waiting _ => false

/-- The call has an end of the pipe. -/
def HasPipe (s : Sys) (t pipe : Nat) : Prop :=
  ∃ fd write, Owns (s.calls t) fd write ∧ s.fds.At fd pipe write

/-- Of the pipe of a call, the programs that descend from its own child may hold the end that is
    written, and no program holds anything else, or will when it has come to its `execlp`. So the
    output of a program ends when its own processes have closed it. -/
def Isolated (s : Sys) : Prop :=
  ∀ t pipe, HasPipe s t pipe → ∀ q ofServer p, s.procs q = .live ofServer p →
    ∀ write, (left p).Holds pipe write → write = true ∧ p.family = pipe

/-- A child that comes to its `execlp` is made only while no other call is exposed. -/
def ForksAlone (s : Sys) (e : PopenEvent) : Prop :=
  ∀ t pid, e = .fork t pid → s.childpid ≠ none → ∀ t', t' ≠ t → exposed s (s.calls t') = false

/-- The pipe of a call was made before. -/
private theorem HasPipe.lt (h : Kept maxfd s) (hp : HasPipe s t pipe) : pipe < s.nextPipe := by
  obtain ⟨fd, write, -, hat⟩ := hp
  exact h.fresh fd pipe write hat

/-- A call that is exposed has the end that is read, and `childpid` does not know it. -/
private theorem Kept.exists_exposed (h : Kept maxfd s) (hexp : exposed s (s.calls t) = true) :
    ∃ fd, Owns (s.calls t) fd false ∧ s.pidAt fd = 0 := by
  -- What `childpid` knows is the stream of a call that reads.
  have hlost : ∀ fd, Owns (s.calls t) fd false → (∀ r, s.calls t ≠ .reading r) →
      s.pidAt fd = 0 := by
    intro fd ho hquiet
    by_contra hpos
    obtain ⟨t', ht'⟩ := h.stored fd hpos
    obtain rfl := h.own t t' fd false false ho (by rw [ht']; exact ⟨rfl, rfl⟩)
    exact hquiet fd ht'
  cases hc : s.calls t with
  | piped r w =>
    exact ⟨r, .inl ⟨rfl, rfl⟩, hlost r (by rw [hc]; exact .inl ⟨rfl, rfl⟩) (by simp [hc])⟩
  | forked r w pid =>
    exact ⟨r, .inl ⟨rfl, rfl⟩, hlost r (by rw [hc]; exact .inl ⟨rfl, rfl⟩) (by simp [hc])⟩
  | closed r pid => exact ⟨r, ⟨rfl, rfl⟩, hlost r (by rw [hc]; exact ⟨rfl, rfl⟩) (by simp [hc])⟩
  | cleared r pid => exact ⟨r, ⟨rfl, rfl⟩, hlost r (by rw [hc]; exact ⟨rfl, rfl⟩) (by simp [hc])⟩
  | reading r =>
    rw [hc] at hexp
    exact ⟨r, ⟨rfl, rfl⟩, eq_of_beq hexp⟩
  | idle | first | ready | waiting => rw [hc] at hexp; cases hexp

/-- A call that is not exposed and has a descriptor is the call of a stream that is known. -/
private theorem known_of_owns (h : exposed s c = false) (ho : Owns c fd write)
    : s.pidAt fd ≠ 0 := by
  cases c with
  | reading r =>
    obtain ⟨rfl, -⟩ := ho
    simpa [exposed] using h
  | idle | first | ready | waiting => exact ho.elim
  | piped | forked | closed | cleared => cases h

/-- What no step of the calls and no new process brings about. -/
private theorem Isolated.of_fewer (hi : Isolated s)
    (hpipes : ∀ t pipe, HasPipe s' t pipe → HasPipe s t pipe)
    (hprocs : ∀ q ofServer p, s'.procs q = .live ofServer p → ∀ pipe write,
      (left p).Holds pipe write → (∃ t, HasPipe s' t pipe) → ∃ q' ofServer' p',
        s.procs q' = .live ofServer' p' ∧ p'.family = p.family ∧ (left p').Holds pipe write) :
    Isolated s' := by
  intro t pipe hpipe q ofServer p hq write hhold
  obtain ⟨q', ofServer', p', hq', hfamily, hhold'⟩ := hprocs q ofServer p hq pipe write hhold
    ⟨t, hpipe⟩
  rw [← hfamily]
  exact hi t pipe (hpipes t pipe hpipe) q' ofServer' p' hq' write hhold'

/-- The pipes behind a step of call `t` that takes nothing new. -/
private theorem hasPipe_setCall {fds : Table} {childpid : Option (Nat → Nat)}
    (hsub : ∀ fd write, Owns c fd write → Owns (s.calls t) fd write)
    (hfds : ∀ fd pipe write, fds.At fd pipe write → s.fds.At fd pipe write)
    (h : HasPipe ({ s with fds := fds, childpid := childpid }.setCall t c) t' pipe) :
    HasPipe s t' pipe := by
  obtain ⟨fd, write, ho, hat⟩ := h
  refine ⟨fd, write, ?_, hfds fd pipe write hat⟩
  rcases update_cases (Owns · fd write) ho with ⟨rfl, hc⟩ | ⟨-, hc⟩
  · exact hsub fd write hc
  · exact hc

/-- Such a step keeps the pipes apart. -/
theorem Isolated.setCall (hi : Isolated s) {fds : Table} {childpid : Option (Nat → Nat)}
    (hsub : ∀ fd write, Owns c fd write → Owns (s.calls t) fd write)
    (hfds : ∀ fd pipe write, fds.At fd pipe write → s.fds.At fd pipe write) :
    Isolated ({ s with fds := fds, childpid := childpid }.setCall t c) :=
  hi.of_fewer (fun _ _ => hasPipe_setCall hsub hfds) fun q ofServer p hq _ _ hhold _ =>
    ⟨q, ofServer, p, hq, rfl, hhold⟩

/-- So does a step of a process that gets nothing new, or pipes of its own. -/
theorem Isolated.setProc (hi : Isolated s) {q : Nat} {slot : Slot} {pipes : Nat}
    (hslot : ∀ ofServer p, slot = .live ofServer p → ∀ pipe write, (left p).Holds pipe write →
      (∃ t, HasPipe s t pipe) → ∃ q' ofServer' p',
        s.procs q' = .live ofServer' p' ∧ p'.family = p.family ∧ (left p').Holds pipe write) :
    Isolated { s.setProc q slot with nextPipe := pipes } := by
  refine hi.of_fewer (fun t pipe h => h) fun q' ofServer p hq' pipe write hhold hpipe => ?_
  rcases live_setProc hq' with ⟨-, hslot'⟩ | ⟨-, hq'⟩
  · exact hslot ofServer p hslot' pipe write hhold hpipe
  · exact ⟨q', ofServer, p, hq', rfl, hhold⟩

section Fork

variable (h : Kept maxfd s) (ht : s.calls t = .piped r w)

include h ht

/-- The pipe of the call that makes a child. -/
private theorem piped_at : s.fds.At r (s.pipeOf r) false ∧ s.fds.At w (s.pipeOf r) true := by
  obtain ⟨pipe, hpipe⟩ := h.isPipe t
  rw [ht] at hpipe
  have hr := hpipe r false (.inl ⟨rfl, rfl⟩)
  have hw := hpipe w true (.inr ⟨rfl, rfl⟩)
  have hof : s.pipeOf r = pipe := by rw [Sys.pipeOf, hr]
  rw [hof]
  exact ⟨hr, hw⟩

/-- The child has nothing of the calls that are not exposed. -/
private theorem child_isolated (halone : ∀ t', t' ≠ t → exposed s (s.calls t') = false)
    (hpipe : HasPipe s t' pipe)
    (hhold : (childFds maxfd s.pidAt r w s.fds).Holds pipe write) :
    write = true ∧ s.pipeOf r = pipe := by
  have hw := (piped_at h ht).2
  obtain ⟨fd, hchild⟩ := hhold
  rcases at_childFds hchild with hcopy | ⟨hne, hstored, hat⟩
  · obtain ⟨hp, hwrite⟩ := hw.inj hcopy
    exact ⟨hwrite.symm, hp⟩
  · obtain ⟨fd', write', ho, hat'⟩ := hpipe
    have hown := h.whole t' fd' write' pipe ho hat' fd write hat
    by_cases htt : t' = t
    · subst htt
      rw [ht] at hown
      rcases hown with ⟨hfd, -⟩ | ⟨hfd, hwrite⟩
      · exact absurd hfd hne
      · rw [hfd] at hat
        exact ⟨hwrite, (hw.inj hat).1⟩
    · -- An open stream is stored, so the child has closed its copy.
      have hpos := known_of_owns (halone t' htt) hown
      exact absurd ⟨h.range t' fd write hown, by omega⟩ hstored

/-- The child of one call has the end that another reads, if that is exposed. -/
private theorem child_inherits (hne : t' ≠ t) (hexp : exposed s (s.calls t') = true) :
    ∃ pipe, HasPipe s t' pipe ∧ (childFds maxfd s.pidAt r w s.fds).Holds pipe false := by
  obtain ⟨fd, ho, hzero⟩ := h.exists_exposed hexp
  obtain ⟨pipe, hpipe⟩ := h.isPipe t'
  have hat := hpipe fd false ho
  refine ⟨pipe, ⟨fd, false, ho, hat⟩, fd, ?_⟩
  -- The descriptor is another call's, so it is not one of the two that the child handles.
  have hapart : ∀ write, ¬ Owns (s.calls t) fd write :=
    fun write ho' => hne (h.own t' t fd false write ho ho')
  rw [ht] at hapart
  have hr : fd ≠ r := fun hfd => hapart false (.inl ⟨hfd, rfl⟩)
  have hw : fd ≠ w := fun hfd => hapart true (.inr ⟨hfd, rfl⟩)
  -- `childpid` does not have it, so it is not closed.
  rw [Table.At, childFds_of_ne hr hw (h.three_le ho) hzero]
  exact hat

/-- `fork` keeps the pipes apart exactly if no other call is exposed, or the child dies. -/
private theorem isolated_fork_iff (hi : Isolated s) :
    Isolated (s.fork maxfd t r w pid) ↔
      (s.childpid ≠ none → ∀ t', t' ≠ t → exposed s (s.calls t') = false) := by
  have hpipes : ∀ t' pipe, HasPipe (s.fork maxfd t r w pid) t' pipe ↔ HasPipe s t' pipe := by
    intro t' pipe
    have hcall : ∀ fd write, Owns ((s.fork maxfd t r w pid).calls t') fd write ↔
        Owns (s.calls t') fd write := by
      intro fd write
      show Owns (Function.update s.calls t (.forked r w pid) t') fd write ↔ _
      by_cases htt : t' = t
      · subst htt
        rw [Function.update_self, ht]
        rfl
      · rw [Function.update_of_ne htt]
    exact exists_congr fun fd => exists_congr fun write => and_congr (hcall fd write) Iff.rfl
  -- What the child will have.
  have hleft : ∀ pids, s.childpid = some pids →
      left ⟨s.pipeOf r, s.fds, childCalls maxfd s.childpid r w⟩ =
        childFds maxfd s.pidAt r w s.fds := by
    intro pids hpids
    have hat : s.pidAt = pids := funext fun fd => by rw [Sys.pidAt, hpids]
    rw [hat, hpids, left_child]
  constructor
  · intro hnew hsome t' hne
    by_contra hexp
    obtain ⟨pipe, hpipe, hhold⟩ := child_inherits h ht hne (Bool.eq_true_of_not_eq_false hexp)
    have hchild : (s.fork maxfd t r w pid).procs pid =
        .live true ⟨s.pipeOf r, s.fds, childCalls maxfd s.childpid r w⟩ := by
      simp [Sys.fork, Sys.setCall, Sys.setProc]
    obtain ⟨pids, hpids⟩ := Option.ne_none_iff_exists'.mp hsome
    rw [← hleft pids hpids] at hhold
    have hbad := hnew t' pipe ((hpipes t' pipe).mpr hpipe) pid true _ hchild false hhold
    cases hbad.1
  · intro halone t' pipe hpipe q ofServer p hq write hhold
    have hpipe' := (hpipes t' pipe).mp hpipe
    rcases live_setProc hq with ⟨-, hq⟩ | ⟨-, hq⟩
    · simp only [Slot.live.injEq] at hq
      rw [← hq.2] at hhold ⊢
      cases hpids : s.childpid with
      | none =>
        rw [hpids, left_child_none] at hhold
        obtain ⟨fd, hat⟩ := hhold
        cases hat
      | some pids =>
        rw [hleft pids hpids] at hhold
        exact child_isolated h ht (halone (by simp [hpids])) hpipe' hhold
    · exact hi t' pipe hpipe' q ofServer p hq write hhold

end Fork

/-- Any step but a fork keeps the pipes apart. -/
private theorem isolated_of_not_fork {e : PopenEvent} (h : Kept maxfd s) (hi : Isolated s)
    (hs : PopenStep maxfd s e s') (hno : ∀ t pid, e ≠ .fork t pid) : Isolated s' := by
  have hsame : ∀ fd pipe write, s.fds.At fd pipe write → s.fds.At fd pipe write :=
    fun _ _ _ hat => hat
  cases hs with
  | @fork t r w pid ht hpid hfree => exact absurd rfl (hno t pid)
  | @pipe t r w ht hr hw hne hr' hw' =>
    intro t' pipe hpipe q ofServer p hq write hhold
    obtain ⟨fd, write', ho, hat⟩ := hpipe
    -- The new pipe is not held by anyone yet.
    have hlt := h.freshProcs q ofServer p hq pipe write hhold
    rcases Kept.at_pipe hne hat with ⟨rfl, -⟩ | ⟨hfdr, hfdw, hat'⟩
    · exact absurd hlt (Nat.lt_irrefl _)
    · rcases Kept.owns_pipe ho with ⟨-, ⟨hfd, -⟩ | ⟨hfd, -⟩⟩ | ⟨-, ho'⟩
      · exact absurd hfd hfdr
      · exact absurd hfd hfdw
      · exact hi t' pipe ⟨fd, write', ho', hat'⟩ q ofServer p hq write hhold
  | getrlimitFails | calloc | callocFails | pipeFails | forkFails | fdopenFails =>
    exact hi.setCall (by simp [Owns]) hsame
  | test ht =>
    apply hi.setCall _ hsame
    intro fd write ho
    cases hnull : s.childpid.isNone <;> simp [hnull, Owns] at ho
  | closeWrite ht =>
    apply hi.setCall _ fun fd pipe write hat => (Table.at_close_iff.mp hat).2
    rw [ht]
    exact fun fd write ho => .inl ho
  | remember ht =>
    apply hi.setCall _ hsame
    rw [ht]
    exact fun fd write ho => ho
  | takePid ht =>
    unfold Sys.takePid
    cases s.childpid with
    | none => exact hi.setCall (by simp [Owns]) hsame
    | some pids =>
      dsimp only
      split
      · exact hi.setCall (by simp [Owns]) hsame
      · apply hi.setCall _ hsame
        rw [ht]
        exact fun fd write ho => ho
  | fclose | fcloseFails =>
    exact hi.setCall (by simp [Owns]) fun fd pipe write hat => (Table.at_close_iff.mp hat).2
  | @wait t pid stat ht hz =>
    have hreaped : Isolated (s.setProc pid .free) := hi.setProc (by simp)
    exact hreaped.setCall (by simp [Owns]) hsame
  | @file fd d hstd hold hnew =>
    refine hi.of_fewer ?_ fun q ofServer p hq _ _ hhold _ => ⟨q, ofServer, p, hq, rfl, hhold⟩
    rintro t pipe ⟨fd', write, ho, hat⟩
    refine ⟨fd', write, ho, ?_⟩
    replace hat : Table.At (Function.update s.fds fd d) fd' pipe write := hat
    by_cases hfd : fd' = fd
    · subst hfd
      rcases hnew with hnew | hnew <;> simp [Table.At, hnew] at hat
    · rwa [Table.At, Function.update_of_ne hfd] at hat
  | @childCall q ofServer p c todo hq htodo hc =>
    -- The child is closer to its `execlp`, where it will have the same.
    apply hi.setProc
    intro ofServer' p' hp pipe write hhold _
    simp only [Slot.live.injEq] at hp
    rw [← hp.2, left_childCall htodo] at hhold
    rw [← hp.2]
    exact ⟨q, ofServer, p, hq, rfl, hhold⟩
  | @childFork q q' ofServer p hq htodo hpid hfree =>
    apply hi.setProc
    intro ofServer' p' hp pipe write hhold _
    simp only [Slot.live.injEq] at hp
    rw [← hp.2] at hhold ⊢
    exact ⟨q, ofServer, p, hq, rfl, hhold⟩
  | @childFds q pipes ofServer p fds hq htodo hle hfds =>
    apply hi.setProc
    intro ofServer' p' hp pipe write hhold hpipe
    simp only [Slot.live.injEq] at hp
    rw [← hp.2, @left_of_nil { p with fds := fds } htodo] at hhold
    rw [← hp.2]
    obtain ⟨t, hpipe⟩ := hpipe
    rcases hfds pipe write hhold with hold | ⟨hnew, -⟩
    · rw [← left_of_nil htodo] at hold
      exact ⟨q, ofServer, p, hq, rfl, hold⟩
    · -- A pipe of its own is none of the server's.
      have := hpipe.lt h
      omega
  | exit | reap => exact hi.setProc (by simp)

/-- A step keeps the pipes apart, unless it is a fork beside a call that is exposed. -/
private theorem isolated_step_iff {e : PopenEvent} (h : Kept maxfd s) (hi : Isolated s)
    (hs : PopenStep maxfd s e s') : Isolated s' ↔ ForksAlone s e := by
  by_cases hfork : ∃ t pid, e = .fork t pid
  · obtain ⟨t, pid, rfl⟩ := hfork
    cases hs with
    | fork ht hpid hfree =>
      rw [isolated_fork_iff h ht hi]
      constructor
      · rintro halone t₁ pid₁ ⟨⟩ hsome t' hne
        exact halone hsome t' hne
      · exact fun halone => halone t pid rfl
  · have hno : ∀ t pid, e ≠ .fork t pid := fun t pid he => hfork ⟨t, pid, he⟩
    exact iff_of_true (isolated_of_not_fork h hi hs hno) fun t pid he => absurd he (hno t pid)

/-! ## Runs -/

/-- A server that has not called `uvc_popen` yet. -/
structure Clean (s : Sys) : Prop where
  calls : ∀ t, s.calls t = .idle
  childpid : s.childpid = none
  std : ∀ fd < 3, s.fds fd = some .other
  fds : ∀ fd pipe write, ¬ s.fds.At fd pipe write
  procs : ∀ q, s.procs q = .free

/-- The invariant holds at the start. -/
theorem Clean.kept (h : Clean s) : Kept maxfd s := by
  -- No call has a descriptor yet.
  have hnone : ∀ t fd write, ¬ Owns (s.calls t) fd write := by simp [h.calls, Owns]
  constructor
  · exact fun t => ⟨0, fun fd write ho => absurd ho (hnone t fd write)⟩
  · exact fun t _ fd write _ ho _ => absurd ho (hnone t fd write)
  · exact fun t fd write _ ho _ => absurd ho (hnone t fd write)
  · exact fun t fd write ho => absurd ho (hnone t fd write)
  · exact h.std
  · exact fun fd pipe write hat => absurd hat (h.fds fd pipe write)
  · simp [h.procs]
  · simp [Sys.pidAt, h.childpid]
  · simp [h.calls, Carries]

/-- Nothing is inherited at the start. -/
private theorem Clean.isolated (h : Clean s) : Isolated s := by
  intro t pipe hpipe
  obtain ⟨fd, write, ho, -⟩ := hpipe
  rw [h.calls] at ho
  exact ho.elim

/-- The array is there for all calls that are behind `calloc`. -/
def Allocated (s : Sys) : Prop :=
  s.childpid = none → ∀ t, s.calls t = .idle ∨ s.calls t = .first

/-- A call that goes on keeps the array. -/
private theorem Allocated.of_calls (h : Allocated s)
    (hcalls : s'.calls = Function.update s.calls t c) (hpids : s'.childpid = s.childpid)
    (ht : s.childpid = none → c = .idle ∨ c = .first) : Allocated s' := by
  intro hnull t'
  rw [hpids] at hnull
  rw [hcalls]
  by_cases htt : t' = t
  · subst htt
    rw [Function.update_self]
    exact ht hnull
  · rw [Function.update_of_ne htt]
    exact h hnull t'

/-- The array keeps what the calls rely on in every step but a `calloc` that fails. -/
private theorem allocated_step {e : PopenEvent} (h : Allocated s) (hs : PopenStep maxfd s e s')
    (hok : ∀ t, e ≠ .callocFails t) : Allocated s' := by
  have hbehind : ∀ t, s.calls t ≠ .idle → s.calls t ≠ .first → s.childpid ≠ none :=
    fun t hidle hfirst hnull => (h hnull t).elim hidle hfirst
  cases hs with
  -- The array is not there, so this call is the next to allocate it.
  | test ht =>
    refine h.of_calls rfl rfl fun hnull => .inr ?_
    simp [hnull]
  | callocFails => exact absurd rfl (hok _)
  | getrlimitFails | pipeFails | forkFails | fdopenFails | fcloseFails | wait =>
    exact h.of_calls rfl rfl fun _ => .inl rfl
  | @pipe t r w ht | @closeWrite t r w pid ht | @fclose t r pid ht | @fork t r w pid ht =>
    exact h.of_calls rfl rfl fun hnull => absurd hnull (hbehind t (by simp [ht]) (by simp [ht]))
  | @takePid t r ht =>
    -- The call that reads on ends, or it has found the array.
    unfold Sys.takePid
    cases hpids : s.childpid with
    | none => exact h.of_calls rfl rfl fun _ => .inl rfl
    | some pids =>
      dsimp only
      split
      · exact h.of_calls rfl rfl fun _ => .inl rfl
      · intro hnull
        cases hnull
  | calloc | remember =>
    intro hnull
    cases hnull
  | file | childCall | childFork | childFds | exit | reap => exact h

/-- So a run comes to a store through the null pointer only if a `calloc` has failed. -/
theorem exists_pids {tr : List (Sys × PopenEvent)} (hc : Clean s)
    (ht : Trace (PopenStep maxfd) s tr s') (hok : ∀ p ∈ tr, ∀ t, p.2 ≠ .callocFails t)
    (hclosed : s'.calls t = .closed r pid) : ∃ pids, s'.childpid = some pids := by
  have hstart : Allocated s := fun _ t => .inl (hc.calls t)
  have hall : Allocated s' :=
    ht.invariant_of (C := fun e => ∀ t, e ≠ .callocFails t)
      (fun _ _ _ h hs hok => allocated_step h hs hok) hok hstart
  apply Option.ne_none_iff_exists'.mp
  intro hnull
  -- A call that stands in front of the store is behind its `calloc`.
  rcases hall hnull t with hidle | hfirst
  · rw [hclosed] at hidle
    cases hidle
  · rw [hclosed] at hfirst
    cases hfirst

/-- In every interleaving of calls, the pipes of all calls stay apart exactly if no child that
    comes to its `execlp` is made while another call stands between `pipe` and the store of its
    child, or between the store of 0 and `fclose`, or has a stream that was lost with the array
    that had it. -/
theorem isolated_iff {tr : List (Sys × PopenEvent)} (hc : Clean s)
    (ht : Trace (PopenStep maxfd) s tr s') :
    ((∀ p ∈ tr, Isolated p.1) ∧ Isolated s') ↔ ∀ p ∈ tr, ForksAlone p.1 p.2 :=
  ht.always_iff (J := Kept maxfd) (I := Isolated) (C := ForksAlone)
    (fun _ _ _ h hs => h.step hs) (fun _ _ _ h hi hs => isolated_step_iff h hi hs)
    hc.kept hc.isolated

/-- A server with its standard streams only. -/
def idleServer : Sys where
  fds i := if i < 3 then some .other else none
  childpid := none
  calls _ := .idle
  procs _ := .free
  nextPipe := 0

/-- A server that has run no command. -/
theorem clean_idleServer : Clean idleServer := by
  constructor
  · exact fun t => rfl
  · rfl
  · exact fun fd hfd => if_pos hfd
  · intro fd pipe write hat
    unfold Table.At idleServer at hat
    dsimp only at hat
    split at hat <;> cases hat
  · exact fun q => rfl

/-- The child of one call is made while another has just called `pipe`. -/
theorem isolated_iff_two :
    let s₁ := (idleServer.test 0).calloc 0
    let s₂ := s₁.pipe 0 3 4
    let s₃ := s₂.test 1
    let s₄ := s₃.pipe 1 5 6
    let tr : List (Sys × PopenEvent) :=
      [(idleServer, .test 0), (idleServer.test 0, .calloc 0), (s₁, .pipe 0 3 4), (s₂, .test 1),
        (s₃, .pipe 1 5 6), (s₄, .fork 0 7)]
    ¬ ((∀ p ∈ tr, Isolated p.1) ∧ Isolated (s₄.fork 8 0 3 4 7)) := by
  intro s₁ s₂ s₃ s₄ tr hiso
  -- Both calls have their pipe when the first one makes its child.
  have h₀ : PopenStep 8 idleServer (.test 0) (idleServer.test 0) := .test rfl
  have h₁ : PopenStep 8 (idleServer.test 0) (.calloc 0) s₁ := .calloc rfl
  have h₂ : PopenStep 8 s₁ (.pipe 0 3 4) s₂ := .pipe rfl rfl rfl (by decide) (by decide) (by decide)
  have h₃ : PopenStep 8 s₂ (.test 1) s₃ := .test rfl
  have h₄ : PopenStep 8 s₃ (.pipe 1 5 6) s₄ := .pipe rfl rfl rfl (by decide) (by decide) (by decide)
  have h₅ : PopenStep 8 s₄ (.fork 0 7) (s₄.fork 8 0 3 4 7) := .fork rfl (by decide) rfl
  have halone := (isolated_iff clean_idleServer
    (.cons h₀ (.cons h₁ (.cons h₂ (.cons h₃ (.cons h₄ (.cons h₅ (.nil _)))))))).mp hiso
  have hexp := halone (s₄, .fork 0 7) (by simp) 0 7 rfl (by intro hnone; cases hnone) 1 (by decide)
  cases hexp

end Udb.Spec
