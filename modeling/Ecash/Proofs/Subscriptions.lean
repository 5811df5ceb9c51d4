import Ecash.Proofs.Program.Announcement

/-!
# What unsubscribing removes

Of an entry in the registry it is not known which subscription it is from: unsubscribing removes
the first one of the listener. The right entry, and nothing the second time, if the
listener was subscribed once. Otherwise the entry may be one of another subscription
(`cancel_of_another`). What holds whatever is subscribed and unsubscribed is the invariant `Inv`, kept
by each act (`step_inv`).
-/
namespace Ecash

namespace Registry

theorem of_subscribe (r : Registry) (s : Subscription) (t : Topic) :
    (r.subscribe s).of t = r.of t ++ if s.topic = t then [s.listener] else [] := by
  obtain ⟨topic, l⟩ := s
  cases topic <;> cases t <;> simp [subscribe, of]

theorem of_unsubscribe (r : Registry) (s : Subscription) (t : Topic) :
    (r.unsubscribe s).of t = if s.topic = t then (r.of t).erase s.listener else r.of t := by
  obtain ⟨topic, l⟩ := s
  cases topic <;> cases t <;> simp [unsubscribe, of]

/-- What is done with a registry. -/
inductive Act where
  | subscribe (s : Subscription)
  /-- Calls the function that came back from the subscription with this number. -/
  | cancel (n : Nat)
  deriving DecidableEq, Repr

end Registry

/-! ## Histories -/

/-- A subscription, and how often its function has been called. -/
structure Subscribed where
  subscription : Subscription
  calls : Nat
  deriving DecidableEq, Repr

/-- Subscribed to the topic, and not cancelled. -/
def Subscribed.isLive (t : Topic) (m : Subscribed) : Bool := m.subscription.topic = t ∧ m.calls = 0

/-- A registry, and all subscriptions that were ever made, in order. -/
structure Ledger where
  registry : Registry
  made : List Subscribed
  deriving DecidableEq, Repr

namespace Ledger

/-- What an act does. Only functions that have come back can be called. -/
def step (b : Ledger) : Registry.Act → Ledger
  | .subscribe s => ⟨b.registry.subscribe s, b.made ++ [⟨s, 0⟩]⟩
  | .cancel n =>
    match b.made[n]? with
    | none => b
    | some m => ⟨b.registry.unsubscribe m.subscription, b.made.set n ⟨m.subscription, m.calls + 1⟩⟩

/-- After these acts. -/
def ofActs (acts : List Registry.Act) : Ledger := acts.foldl step ⟨.empty, []⟩

/-- The listeners of those subscriptions to a topic that are not cancelled. -/
def liveOf (t : Topic) (made : List Subscribed) : List Listener :=
  (made.filter (·.isLive t)).map (·.subscription.listener)

def live (b : Ledger) (t : Topic) : List Listener := liveOf t b.made

/-- The listener was subscribed to the topic once at most. -/
def once (b : Ledger) (t : Topic) (l : Listener) : Bool := (b.made.map (·.subscription)).count ⟨t, l⟩ ≤ 1

/-- No function of the listener's subscriptions to the topic was called twice. -/
def CalledOnce (b : Ledger) (t : Topic) (l : Listener) : Prop :=
  ∀ m ∈ b.made, m.subscription = ⟨t, l⟩ → m.calls ≤ 1

/-- A listener never has more entries than subscriptions; it has as many, if no function was called
twice. Listeners that were subscribed once have the entries of their subscriptions. -/
structure Inv (b : Ledger) (t : Topic) : Prop where
  count_le : ∀ l, (b.registry.of t).count l ≤ (b.live t).count l
  count_eq : ∀ l, b.CalledOnce t l → (b.registry.of t).count l = (b.live t).count l
  once : (b.registry.of t).filter (b.once t) = (b.live t).filter (b.once t)

variable {b : Ledger} {t : Topic} {n : Nat} {m : Subscribed}

/-! ## Subscribing -/

theorem liveOf_append (t : Topic) (ms ms' : List Subscribed) :
    liveOf t (ms ++ ms') = liveOf t ms ++ liveOf t ms' := by
  unfold liveOf
  rw [List.filter_append, List.map_append]

theorem liveOf_cons (t : Topic) (m : Subscribed) (ms : List Subscribed) :
    liveOf t (m :: ms) = (if m.isLive t then [m.subscription.listener] else []) ++ liveOf t ms := by
  unfold liveOf
  cases h : m.isLive t <;> simp [h]

theorem mem_of_liveOf {l : Listener} {ms : List Subscribed} (h : l ∈ liveOf t ms) :
    ⟨t, l⟩ ∈ ms.map (·.subscription) := by
  obtain ⟨m, hm, rfl⟩ := List.mem_map.mp h
  obtain ⟨hmem, hlive⟩ := List.mem_filter.mp hm
  obtain ⟨rfl, -⟩ := of_decide_eq_true hlive
  exact List.mem_map_of_mem hmem

theorem live_subscribe (b : Ledger) (s : Subscription) (t : Topic) :
    (b.step (.subscribe s)).live t = b.live t ++ if s.topic = t then [s.listener] else [] := by
  have hone : liveOf t [⟨s, 0⟩] = if s.topic = t then [s.listener] else [] := by
    rw [liveOf_cons]
    by_cases h : s.topic = t <;> simp [Subscribed.isLive, h, liveOf]
  rw [← hone]
  exact liveOf_append ..

theorem filter_of_imp {α : Type} {p q : α → Bool} {xs ys : List α} (hpq : ∀ a, q a = true → p a = true)
    (h : xs.filter p = ys.filter p) : xs.filter q = ys.filter q := by
  have hand : (fun a => q a && p a) = q := by
    funext a
    cases hq : q a with
    | false => rfl
    | true => simp [hpq a hq]
  have hboth := congrArg (List.filter q) h
  rwa [List.filter_filter, List.filter_filter, hand] at hboth

theorem subscribe_inv (h : Inv b t) (s : Subscription) : Inv (b.step (.subscribe s)) t where
  count_le l := by
    rw [live_subscribe, step, Registry.of_subscribe, List.count_append, List.count_append]
    exact Nat.add_le_add_right (h.count_le l) _
  count_eq l hl := by
    have hbefore : b.CalledOnce t l := fun m hm => hl m (List.mem_append_left _ hm)
    rw [live_subscribe, step, Registry.of_subscribe, List.count_append, List.count_append, h.count_eq l hbefore]
  once := by
    have honce (l : Listener) (hl : (b.step (.subscribe s)).once t l = true) : b.once t l = true := by
      unfold Ledger.once step at hl
      rw [decide_eq_true_eq, List.map_append, List.count_append] at hl
      exact decide_eq_true (Nat.le_trans (Nat.le_add_right _ _) hl)
    rw [live_subscribe, step, Registry.of_subscribe, List.filter_append, List.filter_append]
    exact congrArg (· ++ _) (filter_of_imp honce h.once)

/-! ## Unsubscribing -/

theorem step_cancel (h : b.made[n]? = some m) : ∃ before after, b.made = before ++ m :: after ∧
    b.step (.cancel n) =
      ⟨b.registry.unsubscribe m.subscription, before ++ ⟨m.subscription, m.calls + 1⟩ :: after⟩ := by
  obtain ⟨hlt, hget⟩ := List.getElem?_eq_some_iff.mp h
  refine ⟨b.made.take n, b.made.drop (n + 1), ?_, ?_⟩
  · rw [← hget, List.getElem_cons_drop, List.take_append_drop]
  · simp only [step, h, List.set_eq_take_cons_drop _ hlt]

theorem once_cancel (hm : b.made[n]? = some m) : (b.step (.cancel n)).once = b.once := by
  obtain ⟨before, after, hmade, hstep⟩ := step_cancel hm
  funext t l
  simp [once, hstep, hmade]

theorem CalledOnce.of_cancel (hm : b.made[n]? = some m) {l : Listener}
    (h : (b.step (.cancel n)).CalledOnce t l) : b.CalledOnce t l := by
  obtain ⟨before, after, hmade, hstep⟩ := step_cancel hm
  rw [hstep] at h
  intro m' hm' hsub
  rw [hmade] at hm'
  rcases List.mem_append.mp hm' with hbefore | hrest
  · exact h m' (List.mem_append_left _ hbefore) hsub
  rcases List.mem_cons.mp hrest with rfl | hafter
  · have hmore : m'.calls + 1 ≤ 1 :=
      h ⟨m'.subscription, m'.calls + 1⟩ (List.mem_append_right _ List.mem_cons_self) hsub
    omega
  · exact h m' (List.mem_append_right _ (List.mem_cons_of_mem _ hafter)) hsub

/-- Unsubscribing for another topic changes nothing. -/
theorem cancel_inv_of_ne (h : Inv b t) (hm : b.made[n]? = some m) (ht : m.subscription.topic ≠ t) :
    Inv (b.step (.cancel n)) t := by
  obtain ⟨before, after, hmade, hstep⟩ := step_cancel hm
  have hlive : (b.step (.cancel n)).live t = b.live t := by
    unfold live
    rw [hstep, hmade]
    simp [liveOf_append, liveOf_cons, Subscribed.isLive, ht]
  have hof : (b.step (.cancel n)).registry.of t = b.registry.of t := by
    rw [hstep, Registry.of_unsubscribe, if_neg ht]
  refine ⟨?_, fun l hl => ?_, ?_⟩
  · rw [hlive, hof]
    exact h.count_le
  · rw [hlive, hof]
    exact h.count_eq l (.of_cancel hm hl)
  · rw [hlive, hof, once_cancel hm]
    exact h.once

/-- A listener that was subscribed once has no other live subscription. -/
theorem notMem_of_once {l : Listener} {calls : Nat} {before after : List Subscribed}
    (hmade : b.made = before ++ ⟨⟨t, l⟩, calls⟩ :: after) (h : b.once t l = true) :
    l ∉ liveOf t before ∧ l ∉ liveOf t after := by
  have hcount : (b.made.map (·.subscription)).count ⟨t, l⟩ ≤ 1 := of_decide_eq_true h
  rw [hmade, List.map_append, List.map_cons, List.count_append, List.count_cons_self] at hcount
  constructor
  · intro hl
    have hbefore := List.count_pos_iff.mpr (mem_of_liveOf hl)
    omega
  · intro hl
    have hafter := List.count_pos_iff.mpr (mem_of_liveOf hl)
    omega

section Cancel

variable {l : Listener} {calls : Nat}

theorem of_cancel (hm : b.made[n]? = some ⟨⟨t, l⟩, calls⟩) :
    (b.step (.cancel n)).registry.of t = (b.registry.of t).erase l := by
  obtain ⟨before, after, -, hstep⟩ := step_cancel hm
  rw [hstep, Registry.of_unsubscribe, if_pos rfl]

theorem live_cancel (hm : b.made[n]? = some ⟨⟨t, l⟩, calls⟩) : ∃ before after,
    b.made = before ++ ⟨⟨t, l⟩, calls⟩ :: after ∧
      b.live t = liveOf t before ++ ((if calls = 0 then [l] else []) ++ liveOf t after) ∧
      (b.step (.cancel n)).live t = liveOf t before ++ liveOf t after := by
  obtain ⟨before, after, hmade, hstep⟩ := step_cancel hm
  refine ⟨before, after, hmade, ?_, ?_⟩
  · unfold live
    rw [hmade, liveOf_append, liveOf_cons]
    simp [Subscribed.isLive]
  · unfold live
    rw [hstep, liveOf_append, liveOf_cons]
    simp [Subscribed.isLive]

/-- The first call of a function leaves one live subscription less. -/
theorem count_live_cancel (hm : b.made[n]? = some ⟨⟨t, l⟩, calls⟩) (l' : Listener) :
    (b.live t).count l' =
      ((b.step (.cancel n)).live t).count l' + if l = l' ∧ calls = 0 then 1 else 0 := by
  obtain ⟨before, after, -, hlive, hlive'⟩ := live_cancel hm
  rw [hlive, hlive', List.count_append, List.count_append, List.count_append]
  by_cases hcalls : calls = 0
  · simp [hcalls, List.count_singleton]
    omega
  · simp [hcalls]

/-- Where a listener was subscribed once, the entry that goes is the one that was its own. -/
theorem filter_live_cancel (hm : b.made[n]? = some ⟨⟨t, l⟩, calls⟩) :
    ((b.step (.cancel n)).live t).filter (b.once t) = ((b.live t).filter (b.once t)).erase l := by
  obtain ⟨before, after, hmade, hlive, hlive'⟩ := live_cancel hm
  cases honce : b.once t l with
  | true =>
    obtain ⟨hbefore, hafter⟩ := notMem_of_once hmade honce
    have hlist : (b.live t).erase l = (b.step (.cancel n)).live t := by
      rw [hlive, hlive', List.erase_append_right _ hbefore]
      by_cases hcalls : calls = 0
      · simp [hcalls]
      · simp [hcalls, List.erase_of_not_mem hafter]
    rw [List.erase_filter, hlist]
  | false =>
    have hnot : l ∉ (b.live t).filter (b.once t) := by simp [honce]
    rw [List.erase_of_not_mem hnot, hlive, hlive']
    by_cases hcalls : calls = 0 <;> simp [hcalls, honce]

/-- Unsubscribing for the topic removes one entry of the listener. Of its subscriptions one less is
live then, unless the function had been called before. -/
theorem cancel_inv_of_eq (h : Inv b t) (hm : b.made[n]? = some ⟨⟨t, l⟩, calls⟩) :
    Inv (b.step (.cancel n)) t := by
  have herase (l' : Listener) : ((b.step (.cancel n)).registry.of t).count l' =
      (b.registry.of t).count l' - if l = l' then 1 else 0 := by
    rw [of_cancel hm, List.count_erase]
    simp
  refine ⟨fun l' => ?_, fun l' hl' => ?_, ?_⟩
  · have hle := h.count_le l'
    rw [count_live_cancel hm l'] at hle
    rw [herase l']
    by_cases hl : l = l'
    · rw [if_pos hl]
      split at hle <;> omega
    · rw [if_neg fun hc => hl hc.1] at hle
      omega
  · have heq := h.count_eq l' (.of_cancel hm hl')
    rw [count_live_cancel hm l'] at heq
    rw [herase l']
    by_cases hl : l = l'
    · -- called for the first time, as it may not be called twice
      have hmore : calls + 1 ≤ 1 := by
        obtain ⟨before, after, -, hstep⟩ := step_cancel hm
        refine hl' ⟨⟨t, l⟩, calls + 1⟩ ?_ (hl ▸ rfl)
        rw [hstep]
        exact List.mem_append_right _ List.mem_cons_self
      rw [if_pos ⟨hl, by omega⟩] at heq
      rw [if_pos hl]
      omega
    · rw [if_neg fun hc => hl hc.1] at heq
      rw [if_neg hl]
      omega
  · rw [once_cancel hm, of_cancel hm, ← List.erase_filter, h.once, filter_live_cancel hm]

end Cancel

/-! ## Whole histories -/

theorem step_inv (h : Inv b t) (a : Registry.Act) : Inv (b.step a) t := by
  cases a with
  | subscribe s => exact subscribe_inv h s
  | cancel n =>
    cases hm : b.made[n]? with
    | none =>
      have hstep : b.step (.cancel n) = b := by simp only [step, hm]
      rwa [hstep]
    | some m =>
      by_cases ht : m.subscription.topic = t
      · subst ht
        exact cancel_inv_of_eq h hm
      · exact cancel_inv_of_ne h hm ht

theorem inv_empty (t : Topic) : Inv ⟨.empty, []⟩ t := by
  have hof : Registry.empty.of t = [] := by cases t <;> rfl
  refine ⟨fun l => ?_, fun l _ => ?_, ?_⟩ <;> simp [hof, live, liveOf]

theorem inv_ofActs (acts : List Registry.Act) (t : Topic) : Inv (ofActs acts) t := by
  have hfold (b : Ledger) (h : Inv b t) : Inv (acts.foldl step b) t := by
    induction acts generalizing b with
    | nil => exact h
    | cons a acts ih => exact ih _ (step_inv h a)
  exact hfold _ (inv_empty t)

theorem Registry.unsubscribe_of_notMem {r : Registry} {l : Listener} (h : l ∉ r.of t) :
    r.unsubscribe ⟨t, l⟩ = r := by
  cases t <;> simp_all [Registry.unsubscribe, Registry.of, List.erase_of_not_mem]

/-- The function of a listener that was subscribed once does nothing when it is called again. -/
theorem Inv.cancel_again {l : Listener} {calls : Nat} (h : Inv b t) (hm : b.made[n]? = some ⟨⟨t, l⟩, calls⟩)
    (hcalls : calls ≠ 0) (honce : b.once t l = true) : (b.step (.cancel n)).registry = b.registry := by
  obtain ⟨before, after, hmade, hlive, -⟩ := live_cancel hm
  obtain ⟨hbefore, hafter⟩ := notMem_of_once hmade honce
  have hnotLive : l ∉ b.live t := by
    rw [hlive]
    simp [hcalls, hbefore, hafter]
  have hnone : l ∉ b.registry.of t := by
    have hle := h.count_le l
    rw [List.count_eq_zero.mpr hnotLive] at hle
    exact List.count_eq_zero.mp (Nat.le_zero.mp hle)
  obtain ⟨_, _, -, hstep⟩ := step_cancel hm
  rw [hstep]
  exact Registry.unsubscribe_of_notMem hnone

/-- Whatever is subscribed and unsubscribed, in whatever order, and however often: news for a topic
is passed on to the entries of the registry, in order. The entries of listeners that were subscribed
once are those of their subscriptions that are not cancelled, and to call their functions again
changes nothing. No listener has more entries than subscriptions that are not cancelled. It
has as many unless one of its functions was called twice. -/
theorem entries_of_subscriptions (acts : List Registry.Act) (t : Topic) :
    let b := ofActs acts
    (∀ notice own tr r, (Program.announce t notice own).Yields tr r →
      (∀ ls, ⟨.listeners t, ls⟩ ∈ tr → ls = b.registry.of t) →
        told tr = (own.toList ++ b.registry.of t).map fun l => (l, t, notice)) ∧
    (b.registry.of t).filter (b.once t) = (b.live t).filter (b.once t) ∧
    (∀ n l calls, b.made[n]? = some ⟨⟨t, l⟩, calls⟩ → calls ≠ 0 → b.once t l = true →
      (b.step (.cancel n)).registry = b.registry) ∧
    ∀ l, (b.registry.of t).count l ≤ (b.live t).count l ∧
      (b.CalledOnce t l → (b.registry.of t).count l = (b.live t).count l) := by
  intro b
  have hinv : Inv b t := inv_ofActs acts t
  refine ⟨fun notice own tr r h hlisteners => ?_, hinv.once, ?_, fun l => ⟨hinv.count_le l, hinv.count_eq l⟩⟩
  · obtain ⟨ls, hls, htold⟩ := (Program.announced h).told
    rw [htold, hlisteners ls hls]
  · exact fun n l calls hm hcalls honce => hinv.cancel_again hm hcalls honce

/-- Of two subscriptions of one listener the first is cancelled. The second time its function
is called it removes the entry of the other one. Of three subscriptions, the last for the
listener of the first, the last is cancelled. The listener changes its place. -/
theorem cancel_of_another :
    let first : Registry.Act := .subscribe ⟨.countersReserved, 0⟩
    let other : Registry.Act := .subscribe ⟨.countersReserved, 1⟩
    let once := ofActs [first, first, .cancel 0]
    let twice := once.step (.cancel 0)
    let last := ofActs [first, other, first, .cancel 2]
    once.registry.of .countersReserved = [0] ∧ twice.live .countersReserved = [0] ∧
      twice.registry.of .countersReserved = [] ∧
        last.live .countersReserved = [0, 1] ∧ last.registry.of .countersReserved = [1, 0] := by
  decide

end Ledger

end Ecash
