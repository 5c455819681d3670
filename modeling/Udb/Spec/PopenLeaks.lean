import Udb.ForStd.Ledger
import Udb.Spec.Popen

/-!
# What `uvc_popen` and `uvc_pclose` leave behind

A call takes two descriptors and a child, and gives them back on its way. The paths
that return early do not: without a child or a stream, `uvc_popen` returns with
descriptors of its pipe open, and where `fdopen` or `fclose` fails, nobody waits for
the child. And a first call that allocates `childpid` once more, or fails to, loses what
the array knew: `uvc_pclose` returns in front of such a stream.

## Key results

- `popen_leaks_iff`: the runs that leave a descriptor or a child behind
-/

namespace Udb.Spec

open Fds Steps Ledgers Udb.Native

variable {maxfd : Nat} {s s' s₁ : Sys} {t t' r w pid fd pipe q : Nat} {write : Bool} {c : Call}
  {e : PopenEvent}

/-- The array, which a first call replaces or loses, knows a stream. -/
def LosesStream (s : Sys) : Prop := ∃ t r, s.calls t = .reading r ∧ s.pidAt r ≠ 0

/-- An event behind which an end of a pipe stays open: an early return, or the loss of the array. -/
def LeavesPipe (s : Sys) : PopenEvent → Prop
  | .forkFails _ => True
  | .fdopenFails _ => True
  | .calloc _ => LosesStream s
  | .callocFails _ => LosesStream s
  | _ => False

/-- An event behind which nobody waits for a child. -/
def LeavesChild (s : Sys) : PopenEvent → Prop
  | .fdopenFails _ => True
  | .fcloseFails _ => True
  | .calloc _ => LosesStream s
  | .callocFails _ => LosesStream s
  | _ => False

/-! ## What the calls answer for -/

/-- Each call answers for a set, for that of a stream as far as `childpid` knows it. -/
structure Answers (F : (Nat → Nat) → Call → Set Nat) : Prop where
  congr : ∀ pids pids' c, (∀ r, c = .reading r → pids r = pids' r) → F pids c = F pids' c
  lost : ∀ pids r, pids r = 0 → F pids (.reading r) = ∅
  known : ∀ pids r, pids r ≠ 0 → (F pids (.reading r)).Nonempty
  stream : ∀ pids r pid, 0 < pids r → F pids (.closed r pid) = F pids (.cleared r pid) ∧
    F pids (.reading r) = F pids (.cleared r (pids r))
  idle : ∀ pids, F pids .idle = ∅
  first : ∀ pids, F pids .first = ∅
  ready : ∀ pids, F pids .ready = ∅

/-- The ledger of what the calls answer for. -/
def ledgerOf (F : (Nat → Nat) → Call → Set Nat) (live : Sys → Set Nat) (s : Sys) :
    Ledger Nat Nat where
  held t := F s.pidAt (s.calls t)
  live := live s

section Ledger

variable {F : (Nat → Nat) → Call → Set Nat} {live : Sys → Set Nat} (hF : Answers F)

include hF

/-- The ledger behind a step of call `t`, which changes `childpid` for no stream of another. -/
private theorem ledgerOf_setCall (s s₁ : Sys) (hcalls : s₁.calls = Function.update s.calls t c)
    (hpids : ∀ t', t' ≠ t → ∀ r, s.calls t' = .reading r → s₁.pidAt r = s.pidAt r) :
    ledgerOf F live s₁ =
      ⟨Function.update (ledgerOf F live s).held t (F s₁.pidAt c), live s₁⟩ := by
  refine Ledger.ext ?_ rfl
  funext t'
  show F s₁.pidAt (s₁.calls t') = _
  dsimp only
  by_cases ht : t' = t
  · subst ht
    rw [hcalls, Function.update_self, Function.update_self]
  · -- Another call looks at its own stream only, which is as it was.
    rw [hcalls, Function.update_of_ne ht, Function.update_of_ne ht]
    exact hF.congr _ _ _ (hpids t' ht)

/-- The call goes on, and answers for the same. -/
private theorem ledgerOf_same (hcalls : s₁.calls = Function.update s.calls t c)
    (hpids : ∀ t', t' ≠ t → ∀ r, s.calls t' = .reading r → s₁.pidAt r = s.pidAt r)
    (hlive : live s₁ = live s) (hc : F s₁.pidAt c = F s.pidAt (s.calls t)) :
    ledgerOf F live s₁ = (ledgerOf F live s).post .keep := by
  rw [ledgerOf_setCall hF s s₁ hcalls hpids, hc, hlive]
  exact Ledger.ext (Function.update_eq_self t _) rfl

/-- The call ends, and gives nothing back. -/
private theorem ledgerOf_drop (hcalls : s₁.calls = Function.update s.calls t .idle)
    (hpids : s₁.pidAt = s.pidAt) (hlive : live s₁ = live s) :
    ledgerOf F live s₁ = (ledgerOf F live s).post (.drop {t}) := by
  rw [ledgerOf_setCall hF s s₁ hcalls fun _ _ r _ => congrFun hpids r, hF.idle, hlive]
  refine Ledger.ext (funext fun t' => ?_) rfl
  show Function.update (ledgerOf F live s).held t ∅ t' =
    {r | r ∈ (ledgerOf F live s).held t' ∧ t' ∉ ({t} : Set Nat)}
  ext r
  by_cases ht : t' = t <;> simp [ht]

/-- A call that looks at `childpid`. -/
private theorem ledgerOf_test (hlive : ∀ s t c, live (s.setCall t c) = live s)
    (ht : s.calls t = .idle) :
    ledgerOf F live (s.test t) = (ledgerOf F live s).post .keep := by
  refine ledgerOf_same hF rfl (fun _ _ _ _ => rfl) (hlive s t _) ?_
  rw [ht, hF.idle]
  cases s.childpid.isNone with
  | true => exact hF.first _
  | false => exact hF.ready _

/-- A call that ends with nothing. -/
private theorem ledgerOf_quit (hlive : ∀ s t c, live (s.setCall t c) = live s)
    (ht : s.calls t = .first ∨ s.calls t = .ready) :
    ledgerOf F live (s.setCall t .idle) = (ledgerOf F live s).post .keep := by
  refine ledgerOf_same hF rfl (fun _ _ _ _ => rfl) (hlive s t _) ?_
  rw [hF.idle]
  rcases ht with ht | ht
  · rw [ht, hF.first]
  · rw [ht, hF.ready]

/-- The call behind `remember` looks its child up, and no other call looks there. -/
private theorem ledgerOf_remember (h : Kept maxfd s) {pids : Nat → Nat}
    (hlive : live (s.remember t r pid pids) = live s) (ht : s.calls t = .closed r pid)
    (hpids : s.childpid = some pids) :
    ledgerOf F live (s.remember t r pid pids) = (ledgerOf F live s).post .keep := by
  have hpos : 0 < pid := h.pid t pid (by rw [ht]; rfl)
  have hat : (s.remember t r pid pids).pidAt = Function.update pids r pid := rfl
  have hstream := hF.stream (Function.update pids r pid) r pid (by rwa [Function.update_self])
  refine ledgerOf_same hF rfl (fun t' hne r' hr' => ?_) hlive ?_
  · -- No other call reads from this descriptor.
    have hother : r' ≠ r := by
      rintro rfl
      exact h.ne_reading_of_owns (by rw [ht]; exact ⟨rfl, rfl⟩) hne hr'
    rw [hat, Function.update_of_ne hother, Sys.pidAt, hpids]
  · -- The call answers for the same as before.
    rw [hat, hstream.2, Function.update_self, ← hstream.1, ht]
    exact hF.congr _ _ _ (by simp)

/-- `uvc_pclose` takes the child of a stream that is known, and leaves any other as it is. -/
private theorem ledgerOf_takePid (h : Kept maxfd s)
    (hlive : ∀ s t c childpid, live ({ s with childpid := childpid }.setCall t c) = live s)
    (ht : s.calls t = .reading r) :
    ledgerOf F live (s.takePid t r) = (ledgerOf F live s).post .keep := by
  -- A stream that the array does not know is one that nobody answers for.
  have hdrop : s.pidAt r = 0 →
      ledgerOf F live (s.setCall t .idle) = (ledgerOf F live s).post .keep := by
    intro hlost
    refine ledgerOf_same hF rfl (fun _ _ _ _ => rfl) (hlive s t .idle s.childpid) ?_
    rw [hF.idle, ht, hF.lost _ _ hlost]
  unfold Sys.takePid
  cases hpids : s.childpid with
  | none => exact hdrop (by rw [Sys.pidAt, hpids])
  | some pids =>
    have hat : s.pidAt = pids := funext fun fd => by rw [Sys.pidAt, hpids]
    dsimp only
    split
    · rename_i hlost
      exact hdrop (by rw [hat, hlost])
    · rename_i hpos
      refine ledgerOf_same hF rfl (fun t' hne r' hr' => ?_) (hlive s t _ _) ?_
      · -- The place that is cleared is that of the call.
        have hother : r' ≠ r := by
          rintro rfl
          exact h.ne_reading_of_owns (by rw [ht]; exact ⟨rfl, rfl⟩) hne hr'
        rw [hat]
        exact Function.update_of_ne hother _ _
      · rw [ht, hat, (hF.stream pids r 0 (by omega)).2]
        exact hF.congr _ _ _ (by simp)

/-- A new array, or none, loses the streams that the old one knew, and nothing else. -/
private theorem lost_entry (hcalls : s₁.calls = Function.update s.calls t c)
    (hzero : s₁.pidAt = fun _ => 0) (hlive : live s₁ = live s) (ht : s.calls t = .first)
    (hc : c = .ready ∨ c = .idle) :
    ∃ en, (ledgerOf F live s).Valid en ∧ ledgerOf F live s₁ = (ledgerOf F live s).post en ∧
      (LosesStream s ↔ ∃ ts, en = .drop ts) := by
  -- What each call answers for behind the step.
  have hheld : ∀ t', (ledgerOf F live s₁).held t' =
      {q | q ∈ F s.pidAt (s.calls t') ∧ ¬ ∃ r, s.calls t' = .reading r ∧ s.pidAt r ≠ 0} := by
    intro t'
    show F s₁.pidAt (s₁.calls t') = _
    rw [hzero, hcalls]
    by_cases htt : t' = t
    · subst htt
      have hnothing : F (fun _ => 0) c = ∅ := by
        rcases hc with rfl | rfl
        · exact hF.ready _
        · exact hF.idle _
      rw [Function.update_self, hnothing, ht, hF.first]
      simp
    · rw [Function.update_of_ne htt]
      by_cases hreading : ∃ r, s.calls t' = .reading r
      · obtain ⟨r, hr⟩ := hreading
        rw [hr, hF.lost _ _ rfl]
        by_cases hpos : s.pidAt r = 0
        · rw [hF.lost _ _ hpos]
          simp
        · simp [hpos]
      · have hquiet : ∀ r, s.calls t' ≠ .reading r := fun r hr => hreading ⟨r, hr⟩
        rw [hF.congr _ s.pidAt _ fun r hr => absurd hr (hquiet r)]
        simp [hquiet]
  by_cases hloses : LosesStream s
  · refine ⟨.drop {t' | ∃ r, s.calls t' = .reading r ∧ s.pidAt r ≠ 0}, ?_,
      Ledger.ext (funext hheld) hlive, iff_of_true hloses ⟨_, rfl⟩⟩
    obtain ⟨t', r, hr, hpos⟩ := hloses
    refine ⟨t', ⟨r, hr, hpos⟩, ?_⟩
    show (F s.pidAt (s.calls t')).Nonempty
    rw [hr]
    exact hF.known _ _ hpos
  · refine ⟨.keep, trivial, Ledger.ext (funext fun t' => (hheld t').trans ?_) hlive,
      iff_of_false hloses (by simp)⟩
    have hnone : ¬ ∃ r, s.calls t' = .reading r ∧ s.pidAt r ≠ 0 := fun hex => hloses ⟨t', hex⟩
    simp only [hnone, not_false_eq_true, and_true]
    rfl

end Ledger

/-! ## Descriptors -/

/-- The descriptors that a call will close. -/
def callFds (childpid : Nat → Nat) (c : Call) : Set Nat :=
  {fd | (∃ write, Owns c fd write) ∧ ∀ r, c = .reading r → childpid r ≠ 0}

/-- The server's ends of pipes. -/
def pipeFds (s : Sys) : Set Nat := {fd | ∃ pipe write, s.fds.At fd pipe write}

/-- The server's ends of pipes, and the calls that will close them. -/
def pipeLedger (s : Sys) : Ledger Nat Nat := ledgerOf callFds pipeFds s

/-- In front of its stream a call has the descriptors that it owns. -/
private theorem callFds_of_ne {childpid : Nat → Nat} (h : ∀ r, c ≠ .reading r) :
    callFds childpid c = {fd | ∃ write, Owns c fd write} := by
  ext fd
  simp [callFds, h]

/-- Behind `pipe` it has both ends. -/
private theorem callFds_piped {childpid : Nat → Nat} : callFds childpid (.piped r w) = {r, w} := by
  rw [callFds_of_ne (by simp)]
  ext fd
  simp [Owns, exists_or]

/-- Later it has the read end. -/
private theorem callFds_single {childpid : Nat → Nat} (hc : ∀ r, c ≠ .reading r)
    (h : ∀ fd write, Owns c fd write ↔ fd = r ∧ write = false) : callFds childpid c = {r} := by
  rw [callFds_of_ne hc]
  ext fd
  simp [h]

/-- In front of `pipe` and behind `fclose` it has none. -/
private theorem callFds_eq_empty {childpid : Nat → Nat} (h : ∀ fd write, ¬ Owns c fd write) :
    callFds childpid c = ∅ := by
  ext fd
  simp [callFds, h]

/-- A descriptor is one call's. -/
private theorem answers_callFds : Answers callFds where
  congr pids pids' c h := by
    ext fd
    exact and_congr_right fun _ => forall_congr' fun r => imp_congr_right fun hr => by rw [h r hr]
  lost pids r h := by
    ext fd
    simp [callFds, h]
  known pids r h := ⟨r, ⟨false, rfl, rfl⟩, fun r' hr' => Call.reading.inj hr' ▸ h⟩
  stream pids r pid h := by
    have hpos : pids r ≠ 0 := by omega
    constructor
    · rw [callFds_of_ne (by simp), callFds_of_ne (by simp)]
      rfl
    · rw [callFds_of_ne (c := .cleared r (pids r)) (by simp)]
      ext fd
      simp [callFds, Owns, hpos]
  idle pids := callFds_eq_empty (by simp [Owns])
  first pids := callFds_eq_empty (by simp [Owns])
  ready pids := callFds_eq_empty (by simp [Owns])

/-- A closed descriptor is gone. -/
private theorem pipeFds_close (s : Sys) (fd : Nat) :
    pipeFds { s with fds := s.fds.close fd } = pipeFds s \ {fd} := by
  ext a
  simp only [pipeFds, Table.at_close_iff, exists_and_left, Set.mem_ofPred_eq, Set.mem_sdiff,
    Set.mem_singleton_iff]
  exact and_comm

/-- A call that closes `fd`, and keeps the rest. -/
private theorem pipeLedger_close
    (h : callFds s.pidAt c = callFds s.pidAt (s.calls t) \ {fd}) :
    pipeLedger ({ s with fds := s.fds.close fd }.setCall t c) =
      (pipeLedger s).post (.free t {fd}) := by
  refine (ledgerOf_setCall answers_callFds s ({ s with fds := s.fds.close fd }.setCall t c) rfl
    fun _ _ _ _ => rfl).trans (Ledger.ext ?_ ?_)
  · exact congrArg (Function.update _ t) h
  · exact pipeFds_close s fd

/-- A new pipe. -/
private theorem pipeLedger_pipe (ht : s.calls t = .ready) (hr : s.fds r = none)
    (hw : s.fds w = none)
    (hne : r ≠ w) :
    pipeLedger (s.pipe t r w) = (pipeLedger s).post (.take t {r, w}) := by
  have hready : (pipeLedger s).held t = ∅ := by
    show callFds s.pidAt (s.calls t) = ∅
    rw [ht]
    exact answers_callFds.ready _
  refine (ledgerOf_setCall answers_callFds s (s.pipe t r w) rfl fun _ _ _ _ => rfl).trans
    (Ledger.ext ?_ ?_)
  · -- A call in front of `pipe` has nothing yet.
    show Function.update (pipeLedger s).held t (callFds _ (.piped r w)) = Function.update _ t _
    rw [hready, callFds_piped, Set.empty_union]
  · ext fd
    constructor
    · intro hat
      obtain ⟨pipe, write, hat⟩ := hat
      -- What is open behind the call is the new pipe, or was open before.
      rcases Kept.at_pipe hne hat with ⟨-, ⟨hfd, -⟩ | ⟨hfd, -⟩⟩ | ⟨-, -, hold⟩
      · exact .inr (.inl hfd)
      · exact .inr (.inr hfd)
      · exact .inl ⟨pipe, write, hold⟩
    · intro hmem
      rcases hmem with ⟨pipe, write, hold⟩ | hnew
      · -- The kernel gives out free descriptors, so what was open is as it was.
        have hfdr : fd ≠ r := by
          rintro rfl
          simp [Table.At, hr] at hold
        have hfdw : fd ≠ w := by
          rintro rfl
          simp [Table.At, hw] at hold
        refine ⟨pipe, write, ?_⟩
        rw [Table.At, Kept.fds_pipe_of_ne hfdr hfdw]
        exact hold
      · rcases hnew with rfl | rfl
        · exact ⟨s.nextPipe, false, Kept.at_pipe_self hne (.inl ⟨rfl, rfl⟩)⟩
        · exact ⟨s.nextPipe, true, Kept.at_pipe_self hne (.inr ⟨rfl, rfl⟩)⟩

/-- The server's own files are no pipes. -/
private theorem pipeLedger_file {d : Option Desc} (hold : s.fds fd = none ∨ s.fds fd = some .other)
    (hnew : d = none ∨ d = some .other) :
    pipeLedger { s with fds := Function.update s.fds fd d } = pipeLedger s := by
  refine Ledger.ext rfl ?_
  ext a
  refine exists_congr fun pipe => exists_congr fun write => ?_
  show Function.update s.fds fd d a = _ ↔ s.fds a = _
  by_cases ha : a = fd
  · subst ha
    -- The file was no pipe, and is none now.
    rw [Function.update_self]
    rcases hold with hold | hold <;> rcases hnew with hnew | hnew <;> simp [hold, hnew]
  · rw [Function.update_of_ne ha]

/-- A call that has made its child has both ends of its pipe. -/
private theorem callFds_forked (h : Kept maxfd s) (ht : s.calls t = .forked r w pid) :
    callFds s.pidAt (s.calls t) = {r, w} ∧ r ≠ w := by
  constructor
  · rw [ht, callFds_of_ne (by simp), ← @callFds_piped r w s.pidAt, callFds_of_ne (by simp)]
    rfl
  · rintro rfl
    -- One descriptor would be both ends of the pipe.
    have hr : Owns (s.calls t) r false := by
      rw [ht]
      exact .inl ⟨rfl, rfl⟩
    have hw : Owns (s.calls t) r true := by
      rw [ht]
      exact .inr ⟨rfl, rfl⟩
    cases h.end_inj hr hw

/-- Every step is an entry of the ledger of descriptors. -/
private theorem pipe_entry (h : Kept maxfd s) (hs : PopenStep maxfd s e s') :
    ∃ en, (pipeLedger s).Valid en ∧ pipeLedger s' = (pipeLedger s).post en ∧
      (LeavesPipe s e ↔ ∃ ts, en = .drop ts) := by
  cases hs with
  | @test t ht =>
    exact ⟨.keep, trivial, ledgerOf_test answers_callFds (fun _ _ _ => rfl) ht,
      by simp [LeavesPipe]⟩
  | @calloc t ht => exact lost_entry answers_callFds rfl rfl rfl ht (.inl rfl)
  | @callocFails t ht => exact lost_entry answers_callFds rfl rfl rfl ht (.inr rfl)
  | getrlimitFails ht =>
    exact ⟨.keep, trivial, ledgerOf_quit answers_callFds (fun _ _ _ => rfl) (.inl ht),
      by simp [LeavesPipe]⟩
  | pipeFails ht =>
    exact ⟨.keep, trivial, ledgerOf_quit answers_callFds (fun _ _ _ => rfl) (.inr ht),
      by simp [LeavesPipe]⟩
  | @pipe t r w ht hr hw hne _ _ =>
    refine ⟨.take t {r, w}, ?_, pipeLedger_pipe ht hr hw hne, by simp [LeavesPipe]⟩
    -- The kernel gives out what is free.
    show Disjoint _ _
    rw [Set.disjoint_left]
    intro fd hfd hlive
    obtain ⟨pipe, write, hat⟩ := hlive
    rcases hfd with rfl | rfl
    · simp [Table.At, hr] at hat
    · simp [Table.At, hw] at hat
  | @fork t r w pid ht _ _ =>
    refine ⟨.keep, trivial, ledgerOf_same answers_callFds rfl (fun _ _ _ _ => rfl) rfl ?_,
      by simp [LeavesPipe]⟩
    rw [ht, callFds_of_ne (by simp), callFds_of_ne (by simp)]
    rfl
  | @forkFails t r w ht =>
    -- The call returns, and at least the end that is read stays open.
    refine ⟨.drop {t}, ⟨t, rfl, r, ?_⟩, ledgerOf_drop answers_callFds rfl rfl rfl,
      by simp [LeavesPipe]⟩
    show r ∈ callFds s.pidAt (s.calls t)
    rw [ht, callFds_piped]
    exact .inl rfl
  | @closeWrite t r w pid ht =>
    obtain ⟨hheld, hne⟩ := callFds_forked h ht
    refine ⟨.free t {w}, ?_, pipeLedger_close ?_, by simp [LeavesPipe]⟩
    · show {w} ⊆ callFds s.pidAt (s.calls t)
      rw [hheld]
      simp
    · rw [hheld, callFds_single (r := r) (by simp) (fun _ _ => Iff.rfl)]
      ext fd
      simp only [Set.mem_singleton_iff, Set.mem_sdiff, Set.mem_insert_iff]
      omega
  | @remember t r pid pids ht hpids =>
    exact ⟨.keep, trivial, ledgerOf_remember answers_callFds h rfl ht hpids, by simp [LeavesPipe]⟩
  | @fdopenFails t r pid ht =>
    refine ⟨.drop {t}, ⟨t, rfl, r, ?_⟩, ledgerOf_drop answers_callFds rfl rfl rfl,
      by simp [LeavesPipe]⟩
    show r ∈ callFds s.pidAt (s.calls t)
    rw [ht, callFds_single (r := r) (by simp) fun _ _ => Iff.rfl]
    rfl
  | @takePid t r ht =>
    exact ⟨.keep, trivial, ledgerOf_takePid answers_callFds h (fun _ _ _ _ => rfl) ht,
      by simp [LeavesPipe]⟩
  | @fclose t r pid ht | @fcloseFails t r pid ht =>
    have hheld : callFds s.pidAt (s.calls t) = {r} := by
      rw [ht]
      exact callFds_single (by simp) fun _ _ => Iff.rfl
    refine ⟨.free t {r}, ?_, pipeLedger_close ?_, by simp [LeavesPipe]⟩
    · show {r} ⊆ callFds s.pidAt (s.calls t)
      rw [hheld]
    · rw [hheld, Set.sdiff_self]
      exact callFds_eq_empty (by simp [Owns])
  | @wait t pid stat ht hz =>
    refine ⟨.keep, trivial, ledgerOf_same answers_callFds rfl (fun _ _ _ _ => rfl) rfl ?_,
      by simp [LeavesPipe]⟩
    rw [ht, callFds_eq_empty (by simp [Owns]), callFds_eq_empty (by simp [Owns])]
  | file hstd hold hnew =>
    exact ⟨.keep, trivial, pipeLedger_file hold hnew, by simp [LeavesPipe]⟩
  | childCall | childFork | childFds | exit | reap =>
    exact ⟨.keep, trivial, rfl, by simp [LeavesPipe]⟩

/-- Every step keeps the ledger of descriptors, or leaves one behind. -/
private theorem pipe_follows : Follows (Kept maxfd) pipeLedger LeavesPipe (PopenStep maxfd) where
  keeps _ _ _ h hs := h.step hs
  entry _ _ _ h hs := pipe_entry h hs

/-! ## Children -/

/-- The child that a call will wait for. -/
def awaited (childpid : Nat → Nat) : Call → Option Nat
  | .forked _ _ pid => some pid
  | .closed _ pid => some pid
  | .reading r => if childpid r = 0 then none else some (childpid r)
  | .cleared _ pid => some pid
  | .waiting pid => some pid
  | .idle => none
  | .first => none
  | .ready => none
  | .piped _ _ => none

/-- A child of the server, which the server has not waited for. -/
def isChild : Slot → Bool
  | .live ofServer _ => ofServer
  | .zombie ofServer _ => ofServer
  | .free => false

/-- The child of a call, as a set. -/
def callChild (childpid : Nat → Nat) (c : Call) : Set Nat := {q | awaited childpid c = some q}

/-- The server's children. -/
def children (s : Sys) : Set Nat := {q | isChild (s.procs q) = true}

/-- The server's children, and the calls that will wait for them. -/
def childLedger (s : Sys) : Ledger Nat Nat := ledgerOf callChild children s

/-- A child is one call's. -/
private theorem answers_callChild : Answers callChild where
  congr pids pids' c h := by
    cases c with
    | reading r => simp [callChild, awaited, h r rfl]
    | _ => rfl
  lost pids r h := by simp [callChild, awaited, h]
  known pids r h := ⟨pids r, by simp [callChild, awaited, h]⟩
  stream pids r pid h := by
    have hpos : pids r ≠ 0 := by omega
    exact ⟨rfl, by simp [callChild, awaited, hpos]⟩
  idle pids := by simp [callChild, awaited]
  first pids := by simp [callChild, awaited]
  ready pids := by simp [callChild, awaited]

/-- What a process does to the children. -/
private theorem children_setProc {slot : Slot} {pipes : Nat}
    (h : isChild slot = isChild (s.procs q)) :
    childLedger { s.setProc q slot with nextPipe := pipes } = childLedger s := by
  refine Ledger.ext rfl ?_
  ext q'
  show isChild (Function.update s.procs q slot q') = true ↔ isChild (s.procs q') = true
  by_cases hq : q' = q
  · subst hq
    rw [Function.update_self, h]
  · rw [Function.update_of_ne hq]

/-- A process number behind a step of process `q`. -/
private theorem isChild_setProc {slot : Slot} {q' : Nat} :
    isChild ((s.setProc q slot).procs q') = true ↔
      q' = q ∧ isChild slot = true ∨ q' ≠ q ∧ isChild (s.procs q') = true := by
  show isChild (Function.update s.procs q slot q') = true ↔ _
  by_cases hq : q' = q
  · subst hq
    simp
  · simp [hq]

/-- A call that has made its child. -/
private theorem childLedger_fork (ht : s.calls t = .piped r w) :
    childLedger (s.fork maxfd t r w pid) = (childLedger s).post (.take t {pid}) := by
  have hnone : (childLedger s).held t = ∅ := by
    show {q | awaited s.pidAt (s.calls t) = some q} = ∅
    rw [ht]
    simp [awaited]
  refine (ledgerOf_setCall answers_callChild s (s.fork maxfd t r w pid) rfl
    fun _ _ _ _ => rfl).trans (Ledger.ext ?_ ?_)
  · show Function.update (childLedger s).held t {q | some pid = some q} = Function.update _ t _
    rw [hnone]
    simp
  · ext q
    -- The new process is a child of the server, the others are what they were.
    show isChild ((s.setProc pid _).procs q) = true ↔ isChild (s.procs q) = true ∨ q = pid
    rw [isChild_setProc]
    by_cases hq : q = pid <;> simp [hq, isChild]

/-- A call that has waited for its child. -/
private theorem childLedger_wait (ht : s.calls t = .waiting pid) :
    childLedger ((s.setProc pid .free).setCall t .idle) =
      (childLedger s).post (.free t {pid}) := by
  have hown : (childLedger s).held t = {pid} := by
    show {q | awaited s.pidAt (s.calls t) = some q} = {pid}
    rw [ht]
    simp [awaited]
  refine (ledgerOf_setCall answers_callChild s ((s.setProc pid .free).setCall t .idle) rfl
    fun _ _ _ _ => rfl).trans (Ledger.ext ?_ ?_)
  · show Function.update (childLedger s).held t {q | none = some q} = Function.update _ t _
    rw [hown]
    simp
  · ext q
    -- The child is gone, the others are what they were.
    show isChild ((s.setProc pid .free).procs q) = true ↔ isChild (s.procs q) = true ∧ q ≠ pid
    rw [isChild_setProc]
    by_cases hq : q = pid <;> simp [hq, isChild]

/-- Every step is an entry of the ledger of children. -/
private theorem child_entry (h : Kept maxfd s) (hs : PopenStep maxfd s e s') :
    ∃ en, (childLedger s).Valid en ∧ childLedger s' = (childLedger s).post en ∧
      (LeavesChild s e ↔ ∃ ts, en = .drop ts) := by
  cases hs with
  | @test t ht =>
    exact ⟨.keep, trivial, ledgerOf_test answers_callChild (fun _ _ _ => rfl) ht,
      by simp [LeavesChild]⟩
  | @calloc t ht => exact lost_entry answers_callChild rfl rfl rfl ht (.inl rfl)
  | @callocFails t ht => exact lost_entry answers_callChild rfl rfl rfl ht (.inr rfl)
  | getrlimitFails ht =>
    exact ⟨.keep, trivial, ledgerOf_quit answers_callChild (fun _ _ _ => rfl) (.inl ht),
      by simp [LeavesChild]⟩
  | pipeFails ht =>
    exact ⟨.keep, trivial, ledgerOf_quit answers_callChild (fun _ _ _ => rfl) (.inr ht),
      by simp [LeavesChild]⟩
  | @pipe t r w ht hr hw hne _ _ =>
    refine ⟨.keep, trivial, ?_, by simp [LeavesChild]⟩
    exact ledgerOf_same (c := .piped r w) answers_callChild rfl (fun _ _ _ _ => rfl) rfl
      (by rw [ht]; rfl)
  | @fork t r w pid ht hpid hfree =>
    refine ⟨.take t {pid}, ?_, ?_, by simp [LeavesChild]⟩
    · show Disjoint _ _
      rw [Set.disjoint_singleton_left]
      simp [childLedger, ledgerOf, children, hfree, isChild]
    · exact childLedger_fork ht
  | @forkFails t r w ht =>
    refine ⟨.keep, trivial, ?_, by simp [LeavesChild]⟩
    exact ledgerOf_same (c := .idle) answers_callChild rfl (fun _ _ _ _ => rfl) rfl
      (by rw [ht]; rfl)
  | @closeWrite t r w pid ht =>
    refine ⟨.keep, trivial, ?_, by simp [LeavesChild]⟩
    exact ledgerOf_same (c := .closed r pid) answers_callChild rfl (fun _ _ _ _ => rfl) rfl
      (by rw [ht]; rfl)
  | @remember t r pid pids ht hpids =>
    exact ⟨.keep, trivial, ledgerOf_remember answers_callChild h rfl ht hpids,
      by simp [LeavesChild]⟩
  | @fdopenFails t r pid ht =>
    refine ⟨.drop {t}, ⟨t, rfl, pid, ?_⟩, ledgerOf_drop answers_callChild rfl rfl rfl,
      by simp [LeavesChild]⟩
    show awaited s.pidAt (s.calls t) = some pid
    rw [ht]
    rfl
  | @takePid t r ht =>
    exact ⟨.keep, trivial, ledgerOf_takePid answers_callChild h (fun _ _ _ _ => rfl) ht,
      by simp [LeavesChild]⟩
  | @fclose t r pid ht =>
    refine ⟨.keep, trivial, ?_, by simp [LeavesChild]⟩
    exact ledgerOf_same (c := .waiting pid) answers_callChild rfl (fun _ _ _ _ => rfl) rfl
      (by rw [ht]; rfl)
  | @fcloseFails t r pid ht =>
    -- The descriptor is closed, so nothing of the pipe is left, but the child is.
    refine ⟨.drop {t}, ⟨t, rfl, pid, ?_⟩, ledgerOf_drop answers_callChild rfl rfl rfl,
      by simp [LeavesChild]⟩
    show awaited s.pidAt (s.calls t) = some pid
    rw [ht]
    rfl
  | @wait t pid stat ht hz =>
    refine ⟨.free t {pid}, ?_, ?_, by simp [LeavesChild]⟩
    · show {pid} ⊆ {q | awaited s.pidAt (s.calls t) = some q}
      rw [ht]
      simp [awaited]
    · exact childLedger_wait ht
  | @file fd d hstd hold hnew =>
    exact ⟨.keep, trivial, rfl, by simp [LeavesChild]⟩
  | @childFork q q' ofServer p hq htodo hpid hfree =>
    exact ⟨.keep, trivial, children_setProc (by rw [hfree]; rfl), by simp [LeavesChild]⟩
  | @childCall q ofServer p c todo hq htodo hc =>
    exact ⟨.keep, trivial, children_setProc (by rw [hq]; rfl), by simp [LeavesChild]⟩
  | @childFds q pipes ofServer p fds hq htodo hle hfds =>
    exact ⟨.keep, trivial, children_setProc (by rw [hq]; rfl), by simp [LeavesChild]⟩
  | @exit q stat ofServer p hq =>
    exact ⟨.keep, trivial, children_setProc (by rw [hq]; rfl), by simp [LeavesChild]⟩
  | @reap q stat hq =>
    exact ⟨.keep, trivial, children_setProc (by rw [hq]; rfl), by simp [LeavesChild]⟩

/-- Every step keeps the ledger of children, or leaves one behind. -/
private theorem child_follows : Follows (Kept maxfd) childLedger LeavesChild (PopenStep maxfd) where
  keeps _ _ _ h hs := h.step hs
  entry _ _ _ h hs := child_entry h hs

/-! ## Runs -/

/-- In front of the first call nothing is answered for. -/
private theorem Clean.ledger_sound {F : (Nat → Nat) → Call → Set Nat} {live : Sys → Set Nat}
    (hF : Answers F) (h : Clean s) : (ledgerOf F live s).Sound := by
  have hnone : ∀ t x, x ∉ (ledgerOf F live s).held t := by
    intro t x hx
    have hheld : (ledgerOf F live s).held t = ∅ := by
      show F s.pidAt (s.calls t) = ∅
      rw [h.calls, hF.idle]
    rw [hheld] at hx
    exact hx
  constructor
  · exact fun t x hx => absurd hx (hnone t x)
  · exact fun t t' x hx _ => absurd hx (hnone t x)

/-- In every interleaving of calls, each end of a pipe that the server has belongs to a call that
    will close it, exactly if `fork` and `fdopen` have not failed and no array that knew a stream
    was replaced or lost; and each child is one that a call will wait for, exactly if `fdopen` and
    `fclose` have not failed and no such array was replaced. -/
theorem popen_leaks_iff {tr : List (Sys × PopenEvent)} (hc : Clean s)
    (ht : Trace (PopenStep maxfd) s tr s') :
    ((∀ fd pipe write, s'.fds.At fd pipe write → ∃ t, fd ∈ callFds s'.pidAt (s'.calls t)) ↔
      ∀ p ∈ tr, ¬ LeavesPipe p.1 p.2) ∧
    ((∀ q, isChild (s'.procs q) = true → ∃ t, awaited s'.pidAt (s'.calls t) = some q) ↔
      ∀ p ∈ tr, ¬ LeavesChild p.1 p.2) := by
  -- At the start there is neither a pipe nor a child.
  have hpipes : (pipeLedger s).Covered := by
    intro fd hlive
    obtain ⟨pipe, write, hat⟩ := hlive
    exact absurd hat (hc.fds fd pipe write)
  have hchildren : (childLedger s).Covered := by
    intro q hlive
    simp [childLedger, ledgerOf, children, hc.procs, isChild] at hlive
  constructor
  · rw [← pipe_follows.covered_iff ht hc.kept (hc.ledger_sound answers_callFds) hpipes]
    constructor
    · intro hall fd hlive
      obtain ⟨pipe, write, hat⟩ := hlive
      exact hall fd pipe write hat
    · exact fun hcov fd pipe write hat => hcov fd ⟨pipe, write, hat⟩
  · exact child_follows.covered_iff ht hc.kept (hc.ledger_sound answers_callChild) hchildren

/-- A `fork` that fails leaves two descriptors, and no child. -/
theorem popen_leaks_iff_forkFails :
    let s₁ := (idleServer.test 0).calloc 0
    let s := (s₁.pipe 0 3 4).setCall 0 .idle
    ¬ (∀ fd pipe write, s.fds.At fd pipe write → ∃ t, fd ∈ callFds s.pidAt (s.calls t)) ∧
      ∀ q, isChild (s.procs q) = true → ∃ t, awaited s.pidAt (s.calls t) = some q := by
  intro s₁ s
  have h₀ : PopenStep 8 idleServer (.test 0) (idleServer.test 0) := .test rfl
  have h₁ : PopenStep 8 (idleServer.test 0) (.calloc 0) s₁ := .calloc rfl
  have h₂ : PopenStep 8 s₁ (.pipe 0 3 4) (s₁.pipe 0 3 4) :=
    .pipe rfl rfl rfl (by decide) (by decide) (by decide)
  have h₃ : PopenStep 8 (s₁.pipe 0 3 4) (.forkFails 0) s := .forkFails rfl
  -- The array that is allocated is the first one.
  have hquiet : ¬ LosesStream (idleServer.test 0) := by
    rintro ⟨t, r, hr, hpos⟩
    exact hpos rfl
  have hleaks :=
    popen_leaks_iff clean_idleServer (.cons h₀ (.cons h₁ (.cons h₂ (.cons h₃ (.nil _)))))
  constructor
  · -- The two ends of the pipe stay.
    intro hcov
    have hnone := hleaks.1.mp hcov
    simp [LeavesPipe] at hnone
  · -- There is no child.
    apply hleaks.2.mpr
    simp [LeavesChild, hquiet]

end Udb.Spec
