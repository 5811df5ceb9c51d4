import Ecash.Proofs.Counter

/-!
# Calls on a source of counters

Calls arrive at any time, wait, and are served one after the other. Those on one
keyset take turns in the order in which they came (`served_in_order`); a call that
will be refused waits for nobody, and neither does a snapshot.
-/
namespace Ecash.CounterSource

variable {σ : Type}

/-! ## Calls -/

/-- A call to a source that can do everything. -/
inductive Call where
  | reserve (keyset : Json) (n : Int)
  | advance (keyset : Json) (least : Int)
  | setNext (keyset : Json) (value : Int)
  | snapshot
  deriving DecidableEq, Repr

/-- What a call comes back with. -/
inductive Reply where
  | block (r : Outcome CounterBlock)
  | moved (r : Outcome Unit)
  | cursors (r : Outcome Cursors)
  deriving DecidableEq, Repr

/-- Why a call came back without a result. -/
def Reply.failure? : Reply → Option Failure
  | .block (.error e) | .moved (.error e) | .cursors (.error e) => some e
  | _ => none

/-- What the source makes of a call. -/
def serve (src : CounterSource σ) : Call → σ → Reply × σ
  | .reserve k n, s => (src.reserve k n s).map .block id
  | .advance k least, s => (src.advance k least s).map .moved id
  | .setNext k v, s => (src.setNext k v s).map .moved id
  | .snapshot, s => (.cursors (src.snapshot s), s)

/-- Replies to one call after another. -/
def replies (src : CounterSource σ) : List Call → σ → List Reply
  | [], _ => []
  | c :: calls, s => (src.serve c s).1 :: src.replies calls (src.serve c s).2

namespace Call

/-- The keyset that a call is about. -/
def keyset? : Call → Option Json
  | .reserve k _ | .advance k _ | .setNext k _ => some k
  | .snapshot => none

/-- Asks for a negative number of counters, or for a negative cursor. -/
def Negative : Call → Prop
  | .reserve _ n | .setNext _ n => n < 0
  | .advance .. | .snapshot => False

instance : DecidablePred Negative
  | .reserve _ n | .setNext _ n => inferInstanceAs (Decidable (n < 0))
  | .advance .. | .snapshot => inferInstanceAs (Decidable False)

/-- The call is about a keyset that counts as this one. -/
def On (k : Json) (c : Call) : Prop := c.keyset?.any (·.same k) = true

instance (k : Json) : DecidablePred (On k) := fun _ => inferInstanceAs (Decidable (_ = _))

/-- The call waits for its turn among those on the keyset. -/
def Queues (k : Json) (c : Call) : Prop := c.On k ∧ ¬ c.Negative

instance (k : Json) : DecidablePred (Queues k) := fun _ => inferInstanceAs (Decidable (_ ∧ _))

/-- The two wait for their turns on one keyset. -/
def Contends (b c : Call) : Prop := ¬ b.Negative ∧ c.keyset?.any (fun k => c.Queues k && b.On k) = true

instance (b c : Call) : Decidable (b.Contends c) := inferInstanceAs (Decidable (_ ∧ _))

theorem Queues.contends {k : Json} {b c : Call} (hb : b.Queues k) (hc : c.Queues k) :
    b.Contends c := by
  obtain ⟨k₁, hk₁, hsame₁⟩ := (Option.any_eq_true _ _).mp hb.1
  obtain ⟨k₂, hk₂, hsame₂⟩ := (Option.any_eq_true _ _).mp hc.1
  have hon : b.On k₂ := by
    rw [On, hk₁]
    exact Json.same_trans hsame₁ (Json.same_symm hsame₂)
  have hqueues : c.Queues k₂ := by
    refine ⟨?_, hc.2⟩
    rw [On, hk₂]
    exact Json.same_refl k₂
  refine ⟨hb.2, ?_⟩
  rw [hk₂]
  exact Bool.and_eq_true_iff.mpr ⟨decide_eq_true hqueues, decide_eq_true hon⟩

end Call

/-! ## Service -/

/-- The state of a source, and the calls that wait, in order of arrival. -/
structure Desk (σ : Type) where
  state : σ
  waiting : List Call

/-- What happens at a source. -/
inductive Event where
  | arrived (c : Call)
  | served (c : Call) (r : Reply)
  /-- A call is given up before its turn. -/
  | left (c : Call)
  deriving DecidableEq, Repr

/-- What can happen next. A call is served when none that came before it waits for
its turn on the same keyset, if it waits for one at all. -/
inductive Step (src : CounterSource σ) : Desk σ → Event → Desk σ → Prop where
  | arrive (s : σ) (waiting : List Call) (c : Call) :
    Step src ⟨s, waiting⟩ (.arrived c) ⟨s, waiting ++ [c]⟩
  | serve (s : σ) (before : List Call) (c : Call) (after : List Call)
    (hturn : ∀ b ∈ before, ¬ b.Contends c) :
    Step src ⟨s, before ++ c :: after⟩ (.served c (src.serve c s).1)
      ⟨(src.serve c s).2, before ++ after⟩
  | leave (s : σ) (before : List Call) (c : Call) (after : List Call) :
    Step src ⟨s, before ++ c :: after⟩ (.left c) ⟨s, before ++ after⟩

/-- One thing after another. -/
inductive Run (src : CounterSource σ) : Desk σ → List Event → Desk σ → Prop where
  | refl (d : Desk σ) : Run src d [] d
  | tail {d d' d'' : Desk σ} {tr : List Event} {e : Event} (h : Run src d tr d')
    (hs : Step src d' e d'') : Run src d (tr ++ [e]) d''

/-- Calls in order of arrival. -/
def arrivals (tr : List Event) : List Call :=
  tr.filterMap fun | .arrived c => some c | _ => none

/-- Calls in order of service. -/
def servedCalls (tr : List Event) : List Call :=
  tr.filterMap fun | .served c _ => some c | _ => none

/-- The block of a keyset that was handed out, unless it has no counter. -/
def Event.block? (k : Json) : Event → Option CounterBlock
  | .served (.reserve k' _) (.block (.ok b)) => if k'.same k ∧ 0 < b.count then some b else none
  | _ => none

/-- The blocks of a keyset, in order of service. -/
def blocks (k : Json) (tr : List Event) : List CounterBlock := tr.filterMap (Event.block? k)

/-- Sets the cursor of the keyset. -/
def Event.Sets (k : Json) : Event → Prop
  | .served (.setNext k' v) _ => k'.same k ∧ 0 ≤ v
  | _ => False

instance (k : Json) : DecidablePred (Event.Sets k)
  | .served (.setNext k' v) _ => inferInstanceAs (Decidable (k'.same k ∧ 0 ≤ v))
  | .served (.reserve ..) _ | .served (.advance ..) _ | .served .snapshot _ | .arrived _ | .left _ =>
    isFalse id

/-- Advances the cursor of the keyset. -/
def Event.Advances (k : Json) : Event → Prop
  | .served (.advance k' _) _ => k'.same k
  | _ => False

instance (k : Json) : DecidablePred (Event.Advances k)
  | .served (.advance k' _) _ => inferInstanceAs (Decidable (k'.same k = true))
  | .served (.reserve ..) _ | .served (.setNext ..) _ | .served .snapshot _ | .arrived _ | .left _ =>
    isFalse id

theorem blocks_append (k : Json) (t₁ t₂ : List Event) :
    blocks k (t₁ ++ t₂) = blocks k t₁ ++ blocks k t₂ := List.filterMap_append

theorem blocks_granted (k k' : Json) (n : Int) (b : CounterBlock) :
    blocks k [.served (.reserve k' n) (.block (.ok b))] =
      if k'.same k ∧ 0 < b.count then [b] else [] := by
  simp only [blocks, List.filterMap_cons, List.filterMap_nil, Event.block?]
  split_ifs <;> rfl

/-- A call that is refused hands out nothing. -/
theorem blocks_refused (k : Json) (c : Call) {r : Reply} (hr : r.failure? ≠ none) :
    blocks k [.served c r] = [] := by
  cases r with
  | block r =>
    cases r with
    | ok b => exact absurd rfl hr
    | error e => cases c <;> rfl
  | moved r => cases c <;> rfl
  | cursors r => cases c <;> rfl

theorem pos_of_mem_blocks {k : Json} {tr : List Event} {b : CounterBlock} (hb : b ∈ blocks k tr) :
    0 < b.count := by
  obtain ⟨e, -, he⟩ := List.mem_filterMap.mp hb
  unfold Event.block? at he
  split at he
  · split at he
    · rename_i hblock
      cases he
      exact hblock.2
    · cases he
  · cases he

section Order

variable {src : CounterSource σ} {d d' : Desk σ} {tr : List Event}

/-- The calls that queue for a keyset. -/
def queue (k : Json) (calls : List Call) : List Call := calls.filter (·.Queues k)

theorem queue_append (k : Json) (cs cs' : List Call) :
    queue k (cs ++ cs') = queue k cs ++ queue k cs' := List.filter_append ..

/-- Of the calls that queue for a keyset, the first that waits is served. -/
theorem step_in_order {e : Event} (hs : Step src d e d') (k : Json) :
    (queue k (servedCalls [e] ++ d'.waiting)).Sublist (queue k (d.waiting ++ arrivals [e])) := by
  cases hs with
  | arrive s waiting c => exact List.Sublist.refl _
  | serve s before c after hturn =>
    change (queue k ([c] ++ (before ++ after))).Sublist (queue k (before ++ ([c] ++ after) ++ []))
    by_cases hc : c.Queues k
    · have hnone : queue k before = [] := by
        rw [queue, List.filter_eq_nil_iff]
        intro b hb hq
        exact hturn b hb ((of_decide_eq_true hq).contends hc)
      simp only [queue_append, hnone, List.nil_append, List.append_nil]
      exact List.Sublist.refl _
    · have hnone : queue k [c] = [] := by simp [queue, hc]
      rw [queue_append k [c], hnone, List.append_nil, queue_append, queue_append, queue_append, hnone]
      exact List.Sublist.refl _
  | leave s before c after =>
    change (queue k (before ++ after)).Sublist (queue k (before ++ c :: after ++ []))
    rw [List.append_nil]
    exact ((List.sublist_cons_self c after).append_left before).filter _

/-- Calls on a keyset are served in the order of their arrival; those that have not
been given up wait, in that order too. -/
theorem served_in_order (hr : Run src d tr d') (k : Json) :
    (queue k (servedCalls tr ++ d'.waiting)).Sublist (queue k (d.waiting ++ arrivals tr)) := by
  induction hr with
  | refl => simp [servedCalls, arrivals]
  | @tail d' d'' tr e _ hs ih =>
    have hstep := (step_in_order hs k).append_left (queue k (servedCalls tr))
    have hrun := ih.append_right (queue k (arrivals [e]))
    simp only [servedCalls, arrivals, List.filterMap_append, queue_append, List.append_assoc]
      at hstep hrun ⊢
    exact hstep.trans hrun

end Order

end Ecash.CounterSource
