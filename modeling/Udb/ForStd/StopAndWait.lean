import Mathlib

/-!
# Stop-and-wait clients

A client that sends one request, waits for the reply, and only then goes on,
against a server that answers each request it is given.

`run` is the lossless run: every request is served once and its reply is what the
client reads. `Step` is the same pair of programs over a datagram network, where
requests and replies are in flight and may be dropped, delayed, reordered or
duplicated, and where a client may give up waiting.

The main result is `completes_of_reaches`: as long as nothing is duplicated and no
wait is given up, a client that gets to its end has had the lossless run. At most
one datagram is ever in flight, so there is nothing to reorder, and a loss leaves
the client waiting forever.
-/

namespace StopAndWait

variable {σ τ Req Rep : Type}

/-- What a client does next. -/
inductive Action (Req : Type) where
  | call (q : Req)
  | finished
  | crashed

/-- A client program: its next action, and its state after a wait, which ends with a
    reply or with none. -/
structure Client (σ Req Rep : Type) where
  next : σ → Action Req
  recv : σ → Option Rep → σ

/-- A server program: it answers, or it stops for good. -/
abbrev Server (τ Req Rep : Type) := τ → Req → Option (τ × Rep)

variable (cl : Client σ Req Rep) (serve : Server τ Req Rep)

/-! ## Lossless runs -/

/-- The lossless run with at most `n` requests. -/
def run : Nat → σ → τ → Option (σ × τ)
  | n, c, s =>
    match cl.next c, n with
    | .finished, _ => some (c, s)
    | .crashed, _ => none
    | .call _, 0 => none
    | .call q, n + 1 =>
      match serve s q with
      | none => none
      | some (s', r) => run n (cl.recv c (some r)) s'

/-- The lossless run from `c` and `s` ends, with the client in `c'` and the server in `s'`. -/
def Completes (c : σ) (s : τ) (c' : σ) (s' : τ) : Prop := ∃ n, run cl serve n c s = some (c', s')

/-- The client gets through waits with these outcomes, as many as there are, and does not crash. -/
def survives : σ → List (Option Rep) → Bool
  | c, [] =>
    match cl.next c with
    | .crashed => false
    | _ => true
  | c, outcome :: outcomes =>
    match cl.next c with
    | .crashed => false
    | .finished => true
    | .call _ => survives (cl.recv c outcome) outcomes

variable {cl serve}

/-- A client that crashes in no state survives. -/
theorem survives_of_forall (h : ∀ c, cl.next c ≠ .crashed) (c : σ)
    (outcomes : List (Option Rep)) : survives cl c outcomes = true := by
  induction outcomes generalizing c with
  | nil =>
    rw [survives]
    cases hn : cl.next c with
    | crashed => exact absurd hn (h c)
    | finished => rfl
    | call q => rfl
  | cons outcome outcomes ih =>
    rw [survives]
    cases hn : cl.next c with
    | crashed => exact absurd hn (h c)
    | finished => rfl
    | call q => exact ih (cl.recv c outcome)

/-- A client that is done has completed. -/
theorem Completes.finished {c : σ} {s : τ} (h : cl.next c = .finished) :
    Completes cl serve c s c s := ⟨0, by simp [run, h]⟩

/-- One exchange in front of a run that ends. -/
theorem Completes.call {c c' : σ} {s s₁ s' : τ} {q : Req} {r : Rep}
    (hn : cl.next c = .call q) (hs : serve s q = some (s₁, r))
    (h : Completes cl serve (cl.recv c (some r)) s₁ c' s') : Completes cl serve c s c' s' := by
  obtain ⟨n, hr⟩ := h
  exact ⟨n + 1, by simp [run, hn, hs, hr]⟩

/-- More requests allowed, same result. -/
theorem run_mono {n m : Nat} {c : σ} {s : τ} {r : σ × τ} (h : run cl serve n c s = some r)
    (hnm : n ≤ m) : run cl serve m c s = some r := by
  induction n generalizing m c s with
  | zero =>
    unfold run at h ⊢
    cases hn : cl.next c with
    | finished => simpa [hn] using h
    | crashed => simp [hn] at h
    | call q => simp [hn] at h
  | succ n ih =>
    obtain ⟨m, rfl⟩ : ∃ k, m = k + 1 := ⟨m - 1, by omega⟩
    unfold run at h ⊢
    cases hn : cl.next c with
    | finished => simpa [hn] using h
    | crashed => simp [hn] at h
    | call q =>
      cases hs : serve s q with
      | none => simp [hn, hs] at h
      | some p =>
        simp only [hn, hs] at h ⊢
        exact ih h (by omega)

/-- A lossless run has one result. -/
theorem Completes.unique {c c₁ c₂ : σ} {s s₁ s₂ : τ} (h₁ : Completes cl serve c s c₁ s₁)
    (h₂ : Completes cl serve c s c₂ s₂) : c₁ = c₂ ∧ s₁ = s₂ := by
  obtain ⟨n, hn⟩ := h₁
  obtain ⟨m, hm⟩ := h₂
  have h := (run_mono hn (Nat.le_max_left n m)).symm.trans (run_mono hm (Nat.le_max_right n m))
  simpa using h

/-- A run that ends begins with the next exchange. -/
theorem completes_call_iff {c c' : σ} {s s' : τ} {q : Req} (hn : cl.next c = .call q) :
    Completes cl serve c s c' s' ↔
      ∃ s₁ r, serve s q = some (s₁, r) ∧ Completes cl serve (cl.recv c (some r)) s₁ c' s' := by
  constructor
  · rintro ⟨n, hrun⟩
    unfold run at hrun
    cases n with
    | zero => simp [hn] at hrun
    | succ n =>
      cases hs : serve s q with
      | none => simp [hn, hs] at hrun
      | some p =>
        simp only [hn, hs] at hrun
        exact ⟨p.1, p.2, rfl, n, hrun⟩
  · rintro ⟨s₁, r, hs, h⟩
    exact .call hn hs h

/-- What every exchange keeps, a run that ends has kept. -/
theorem Completes.invariant {I : σ → τ → Prop}
    (hstep : ∀ c s q s₁ r, I c s → cl.next c = .call q → serve s q = some (s₁, r) →
      I (cl.recv c (some r)) s₁)
    {c c' : σ} {s s' : τ} (h₀ : I c s) (h : Completes cl serve c s c' s') : I c' s' := by
  obtain ⟨n, hrun⟩ := h
  -- Induction on the number of exchanges.
  induction n generalizing c s with
  | zero =>
    unfold run at hrun
    cases hn : cl.next c with
    | finished =>
      simp only [hn, Option.some.injEq, Prod.mk.injEq] at hrun
      obtain ⟨rfl, rfl⟩ := hrun
      exact h₀
    | crashed => simp [hn] at hrun
    | call q => simp [hn] at hrun
  | succ n ih =>
    unfold run at hrun
    cases hn : cl.next c with
    | finished =>
      simp only [hn, Option.some.injEq, Prod.mk.injEq] at hrun
      obtain ⟨rfl, rfl⟩ := hrun
      exact h₀
    | crashed => simp [hn] at hrun
    | call q =>
      cases hs : serve s q with
      | none => simp [hn, hs] at hrun
      | some p =>
        simp only [hn, hs] at hrun
        exact ih (hstep c s q p.1 p.2 h₀ hn hs) hrun

/-! ## Runs over a datagram network -/

/-- A client, a server, and the datagrams in flight between them. A server that has
    stopped is `none`. -/
structure Config (σ τ Req Rep : Type) where
  client : σ
  waiting : Bool
  server : Option τ
  requests : List Req
  replies : List Rep

/-- What can happen. -/
inductive Event where
  | send
  | serve
  | deliver
  | dropRequest
  | dropReply
  | duplicateRequest
  | duplicateReply
  | giveUp
  deriving DecidableEq, Repr

variable (cl serve)

/-- One event. Datagrams are taken from any place of the lists: the network keeps no order
    and sets no time. -/
inductive Step : Config σ τ Req Rep → Event → Config σ τ Req Rep → Prop where
  | send {d : Config σ τ Req Rep} {q : Req} (hw : d.waiting = false)
      (hn : cl.next d.client = .call q) :
      Step d .send { d with waiting := true, requests := q :: d.requests }
  | serve {d : Config σ τ Req Rep} {s s' : τ} {l₁ l₂ : List Req} {q : Req} {r : Rep}
      (hs : d.server = some s) (hq : d.requests = l₁ ++ q :: l₂) (hr : serve s q = some (s', r)) :
      Step d .serve
        { d with server := some s', requests := l₁ ++ l₂, replies := r :: d.replies }
  | stop {d : Config σ τ Req Rep} {s : τ} {l₁ l₂ : List Req} {q : Req}
      (hs : d.server = some s) (hq : d.requests = l₁ ++ q :: l₂) (hr : serve s q = none) :
      Step d .serve { d with server := none, requests := l₁ ++ l₂ }
  | deliver {d : Config σ τ Req Rep} {l₁ l₂ : List Rep} {r : Rep} (hw : d.waiting = true)
      (hr : d.replies = l₁ ++ r :: l₂) :
      Step d .deliver
        { d with client := cl.recv d.client (some r), waiting := false, replies := l₁ ++ l₂ }
  | dropRequest {d : Config σ τ Req Rep} {l₁ l₂ : List Req} {q : Req}
      (hq : d.requests = l₁ ++ q :: l₂) :
      Step d .dropRequest { d with requests := l₁ ++ l₂ }
  | dropReply {d : Config σ τ Req Rep} {l₁ l₂ : List Rep} {r : Rep}
      (hr : d.replies = l₁ ++ r :: l₂) :
      Step d .dropReply { d with replies := l₁ ++ l₂ }
  | duplicateRequest {d : Config σ τ Req Rep} {q : Req} (hq : q ∈ d.requests) :
      Step d .duplicateRequest { d with requests := q :: d.requests }
  | duplicateReply {d : Config σ τ Req Rep} {r : Rep} (hr : r ∈ d.replies) :
      Step d .duplicateReply { d with replies := r :: d.replies }
  | giveUp {d : Config σ τ Req Rep} (hw : d.waiting = true) :
      Step d .giveUp { d with client := cl.recv d.client none, waiting := false }

/-- Runs made of the events that `allowed` admits. -/
def Reaches (allowed : Event → Prop) : Config σ τ Req Rep → Config σ τ Req Rep → Prop :=
  Relation.ReflTransGen fun d d' => ∃ e, allowed e ∧ Step cl serve d e d'

/-- Before the first request: nothing in flight. -/
def start (c : σ) (s : τ) : Config σ τ Req Rep := ⟨c, false, some s, [], []⟩

/-- The client has got to its end. -/
def Config.Done (d : Config σ τ Req Rep) : Prop :=
  d.waiting = false ∧ cl.next d.client = .finished

/-- The events that keep a client and a server in step: all but duplication and giving up. -/
def InStep (e : Event) : Prop := e ≠ .duplicateRequest ∧ e ≠ .duplicateReply ∧ e ≠ .giveUp

instance : DecidablePred InStep := fun _ => inferInstanceAs (Decidable (_ ∧ _ ∧ _))

/-- One lossless exchange. -/
def Exchange (p p' : σ × τ) : Prop :=
  ∃ q r, cl.next p.1 = .call q ∧ serve p.2 q = some (p'.2, r) ∧ p'.1 = cl.recv p.1 (some r)

/-- What holds in step: the lossless exchanges so far have led to `p`, and the next one is
    not begun, asked, answered, or lost. -/
inductive Phase (d : Config σ τ Req Rep) (p : σ × τ) : Prop where
  | idle (hw : d.waiting = false) (hs : d.server = some p.2) (hq : d.requests = [])
      (hr : d.replies = [])
  | asked {q : Req} (hw : d.waiting = true) (hs : d.server = some p.2) (hq : d.requests = [q])
      (hr : d.replies = []) (hn : cl.next p.1 = .call q)
  | answered {q : Req} {s' : τ} {r : Rep} (hw : d.waiting = true) (hs : d.server = some s')
      (hq : d.requests = []) (hr : d.replies = [r]) (hn : cl.next p.1 = .call q)
      (he : serve p.2 q = some (s', r))
  | lost (hw : d.waiting = true) (hq : d.requests = []) (hr : d.replies = [])

variable {cl serve}

/-- A list of one element is split around it. -/
private theorem singleton_split {α : Type} {a b : α} {l₁ l₂ : List α}
    (h : [a] = l₁ ++ b :: l₂) : b = a ∧ l₁ ++ l₂ = [] := by
  cases l₁ with
  | nil => simp_all
  | cons x xs => simp at h

/-- Events in step keep the phase, or complete an exchange. -/
theorem Phase.step {d d' : Config σ τ Req Rep} {p : σ × τ} {e : Event} (he : InStep e)
    (hc : d.client = p.1) (hp : Phase cl serve d p) (hst : Step cl serve d e d') :
    (d'.client = p.1 ∧ Phase cl serve d' p) ∨
      ∃ p', Exchange cl serve p p' ∧ d'.client = p'.1 ∧ Phase cl serve d' p' := by
  obtain ⟨he₁, he₂, he₃⟩ := he
  -- By the phase, and then by the event: in step, each phase has one way on, or loses its message.
  cases hp with
  | idle hw hs hq hr =>
    -- Only the client can move.
    cases hst with
    | send hw' hn => exact .inl ⟨hc, .asked rfl hs (congrArg (_ :: ·) hq) hr (hc ▸ hn)⟩
    | serve hs' hq' _ => simp [hq] at hq'
    | stop hs' hq' _ => simp [hq] at hq'
    | deliver hw' _ => simp [hw] at hw'
    | dropRequest hq' => simp [hq] at hq'
    | dropReply hr' => simp [hr] at hr'
    | duplicateRequest _ => exact absurd rfl he₁
    | duplicateReply _ => exact absurd rfl he₂
    | giveUp _ => exact absurd rfl he₃
  | asked hw hs hq hr hn =>
    -- The one request is served, or lost.
    cases hst with
    | send hw' _ => simp [hw] at hw'
    | serve hs' hq' hr' =>
      obtain ⟨rfl, hnil⟩ := singleton_split (hq.symm.trans hq')
      obtain rfl := Option.some.inj (hs.symm.trans hs')
      exact .inl ⟨hc, .answered hw rfl hnil (by simp [hr]) hn hr'⟩
    | stop hs' hq' _ => exact .inl ⟨hc, .lost hw (singleton_split (hq.symm.trans hq')).2 hr⟩
    | deliver hw' hr' => simp [hr] at hr'
    | dropRequest hq' => exact .inl ⟨hc, .lost hw (singleton_split (hq.symm.trans hq')).2 hr⟩
    | dropReply hr' => simp [hr] at hr'
    | duplicateRequest _ => exact absurd rfl he₁
    | duplicateReply _ => exact absurd rfl he₂
    | giveUp _ => exact absurd rfl he₃
  | @answered q s' r hw hs hq hr hn he' =>
    -- The one reply is delivered, which completes the exchange, or lost.
    cases hst with
    | send hw' _ => simp [hw] at hw'
    | serve hs' hq' _ => simp [hq] at hq'
    | stop hs' hq' _ => simp [hq] at hq'
    | deliver hw' hr' =>
      obtain ⟨rfl, hnil⟩ := singleton_split (hr.symm.trans hr')
      refine .inr ⟨(cl.recv p.1 (some _), s'), ⟨q, _, hn, he', rfl⟩, by rw [hc], ?_⟩
      exact .idle rfl hs hq hnil
    | dropRequest hq' => simp [hq] at hq'
    | dropReply hr' => exact .inl ⟨hc, .lost hw hq (singleton_split (hr.symm.trans hr')).2⟩
    | duplicateRequest _ => exact absurd rfl he₁
    | duplicateReply _ => exact absurd rfl he₂
    | giveUp _ => exact absurd rfl he₃
  | lost hw hq hr =>
    -- Nothing is under way, and the client waits.
    cases hst with
    | send hw' _ => simp [hw] at hw'
    | serve hs' hq' _ => simp [hq] at hq'
    | stop hs' hq' _ => simp [hq] at hq'
    | deliver hw' hr' => simp [hr] at hr'
    | dropRequest hq' => simp [hq] at hq'
    | dropReply hr' => simp [hr] at hr'
    | duplicateRequest _ => exact absurd rfl he₁
    | duplicateReply _ => exact absurd rfl he₂
    | giveUp _ => exact absurd rfl he₃

/-- A network that may do more reaches more. -/
theorem Reaches.mono {a b : Event → Prop} {d d' : Config σ τ Req Rep}
    (h : Reaches cl serve a d d') (hab : ∀ e, a e → b e) : Reaches cl serve b d d' := by
  induction h with
  | refl => exact .refl
  | tail _ hst ih =>
    obtain ⟨e, he, hst⟩ := hst
    exact ih.tail ⟨e, hab e he, hst⟩

/-- A run in step stands in some phase after some lossless exchanges. -/
theorem phase_of_reaches {c : σ} {s : τ} {d : Config σ τ Req Rep}
    (h : Reaches cl serve InStep (start c s) d) :
    ∃ p, Relation.ReflTransGen (Exchange cl serve) (c, s) p ∧ d.client = p.1 ∧
      Phase cl serve d p := by
  induction h with
  | refl => exact ⟨(c, s), .refl, rfl, .idle rfl rfl rfl rfl⟩
  | tail _ hst ih =>
    obtain ⟨p, hx, hc, hp⟩ := ih
    obtain ⟨e, he, hst⟩ := hst
    rcases hp.step he hc hst with ⟨hc', hp'⟩ | ⟨p', hx', hc', hp'⟩
    · exact ⟨p, hx, hc', hp'⟩
    · exact ⟨p', hx.tail hx', hc', hp'⟩

/-- Lossless exchanges up to a finished client are a lossless run. -/
theorem completes_of_exchanges {p p' : σ × τ}
    (h : Relation.ReflTransGen (Exchange cl serve) p p') (hf : cl.next p'.1 = .finished) :
    Completes cl serve p.1 p.2 p'.1 p'.2 := by
  induction h using Relation.ReflTransGen.head_induction_on with
  | refl => exact .finished hf
  | head hx _ ih =>
    obtain ⟨q, r, hn, hs, hc⟩ := hx
    exact .call hn hs (hc ▸ ih)

/-- A client that gets to its end without duplication and without giving up has had the
    lossless run. -/
theorem completes_of_reaches {c : σ} {s : τ} {d : Config σ τ Req Rep}
    (h : Reaches cl serve InStep (start c s) d) (hd : d.Done cl) :
    ∃ s', d.server = some s' ∧ Completes cl serve c s d.client s' := by
  obtain ⟨p, hx, hc, hp⟩ := phase_of_reaches h
  obtain ⟨hw, hf⟩ := hd
  have hs : d.server = some p.2 := by
    cases hp with
    | idle _ hs _ _ => exact hs
    | asked hw' _ _ _ _ => simp [hw] at hw'
    | answered hw' _ _ _ _ _ => simp [hw] at hw'
    | lost hw' _ _ => simp [hw] at hw'
  rw [hc] at hf ⊢
  exact ⟨p.2, hs, completes_of_exchanges hx hf⟩

/-- Exchanges in front of a run do not change where it ends. -/
theorem completes_iff_of_exchanges {p p₁ : σ × τ} {c' : σ} {s' : τ}
    (h : Relation.ReflTransGen (Exchange cl serve) p p₁) :
    Completes cl serve p.1 p.2 c' s' ↔ Completes cl serve p₁.1 p₁.2 c' s' := by
  induction h using Relation.ReflTransGen.head_induction_on with
  | refl => rfl
  | head hx _ ih =>
    obtain ⟨q, r, hn, hs, hc⟩ := hx
    rw [← ih, completes_call_iff hn, hs, hc]
    constructor
    · rintro ⟨s₁, r₁, heq, hrun⟩
      obtain ⟨rfl, rfl⟩ := Prod.mk.inj (Option.some.inj heq)
      exact hrun
    · exact fun hrun => ⟨_, _, rfl, hrun⟩

/-- A client whose request stops the server does not end. -/
theorem not_completes_of_stop {c c' : σ} {s s' : τ} {q : Req} (hn : cl.next c = .call q)
    (hs : serve s q = none) : ¬ Completes cl serve c s c' s' := by
  rw [completes_call_iff hn, hs]
  rintro ⟨s₁, r, heq, -⟩
  cases heq

/-- A client that has crashed does not complete. -/
theorem not_completes_of_crashed {c c' : σ} {s s' : τ} (hn : cl.next c = .crashed) :
    ¬ Completes cl serve c s c' s' := by
  rintro ⟨n, hrun⟩
  unfold run at hrun
  rw [hn] at hrun
  cases hrun

/-- A client that has ended is where it ended. -/
theorem completes_finished_iff {c c' : σ} {s s' : τ} (hf : cl.next c = .finished) :
    Completes cl serve c s c' s' ↔ c = c' ∧ s = s' := by
  constructor
  · exact fun h => (Completes.finished hf).unique h
  · rintro ⟨rfl, rfl⟩
    exact .finished hf

/-- One exchange over the network, with nothing lost. -/
theorem reaches_of_exchange {p p' : σ × τ} (h : Exchange cl serve p p') :
    Reaches cl serve InStep (start p.1 p.2) (start p'.1 p'.2) := by
  obtain ⟨q, r, hn, hs, hc⟩ := h
  have hsend : Step cl serve (start p.1 p.2) .send ⟨p.1, true, some p.2, [q], []⟩ := .send rfl hn
  have hserve : Step cl serve ⟨p.1, true, some p.2, [q], []⟩ .serve
      ⟨p.1, true, some p'.2, [], [r]⟩ :=
    @Step.serve _ _ _ _ cl serve ⟨_, _, _, [q], []⟩ _ _ [] [] q r rfl rfl hs
  have hdeliver : Step cl serve ⟨p.1, true, some p'.2, [], [r]⟩ .deliver
      ⟨cl.recv p.1 (some r), false, some p'.2, [], []⟩ :=
    @Step.deliver _ _ _ _ cl serve ⟨_, _, _, [], [r]⟩ [] [] r rfl rfl
  rw [← hc] at hdeliver
  exact .tail (.tail (.single ⟨.send, by simp [InStep], hsend⟩) ⟨.serve, by simp [InStep], hserve⟩)
    ⟨.deliver, by simp [InStep], hdeliver⟩

/-- Every lossless run that ends is a run over the network. -/
theorem reaches_of_completes {c c' : σ} {s s' : τ} (h : Completes cl serve c s c' s') :
    Reaches cl serve InStep (start c s) (start c' s') ∧ cl.next c' = .finished := by
  obtain ⟨n, hrun⟩ := h
  -- Induction on the number of exchanges.
  induction n generalizing c s with
  | zero =>
    unfold run at hrun
    cases hn : cl.next c with
    | finished =>
      simp only [hn, Option.some.injEq, Prod.mk.injEq] at hrun
      obtain ⟨rfl, rfl⟩ := hrun
      exact ⟨.refl, hn⟩
    | crashed => simp [hn] at hrun
    | call q => simp [hn] at hrun
  | succ n ih =>
    unfold run at hrun
    cases hn : cl.next c with
    | finished =>
      simp only [hn, Option.some.injEq, Prod.mk.injEq] at hrun
      obtain ⟨rfl, rfl⟩ := hrun
      exact ⟨.refl, hn⟩
    | crashed => simp [hn] at hrun
    | call q =>
      cases hs : serve s q with
      | none => simp [hn, hs] at hrun
      | some p =>
        simp only [hn, hs] at hrun
        obtain ⟨hreach, hfin⟩ := ih hrun
        have hx : Exchange cl serve (c, s) (cl.recv c (some p.2), p.1) := ⟨q, p.2, hn, hs, rfl⟩
        exact ⟨(reaches_of_exchange hx).trans hreach, hfin⟩

variable (cl serve)

/-- The client gets to its end over the network, with nothing duplicated and no wait given up. -/
def Ends (c : σ) (s : τ) (c' : σ) (s' : τ) : Prop :=
  ∃ d, Reaches cl serve InStep (start c s) d ∧ d.Done cl ∧ d.client = c' ∧ d.server = some s'

variable {cl serve}

/-- Over such a network a client ends as in the lossless run, or not at all. -/
theorem ends_iff {c c' : σ} {s s' : τ} :
    Ends cl serve c s c' s' ↔ Completes cl serve c s c' s' := by
  constructor
  · rintro ⟨d, hreach, hdone, rfl, hs⟩
    obtain ⟨s₁, hs₁, h⟩ := completes_of_reaches hreach hdone
    obtain rfl := Option.some.inj (hs.symm.trans hs₁)
    exact h
  · intro h
    obtain ⟨hreach, hfin⟩ := reaches_of_completes h
    exact ⟨_, hreach, ⟨rfl, hfin⟩, rfl, rfl⟩

end StopAndWait
