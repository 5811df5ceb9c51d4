import Ecash.Proofs.Counter.Service

/-!
# The source in memory is an allocator

Everything that the source in memory makes of a call is listed by `Served`. A call
leaves no cursor below zero (`Served.nonnegative`), and what it hands out lies
between the cursor before and the cursor after (`Served.chained`). So between two
settings of a cursor no counter is handed out twice, none is left out unless the
cursor is advanced, and the source can begin again with its cursors
(`inMemory_allocates`).
-/
namespace Ecash.CounterSource

variable {cs cs' : Cursors} {c : Call} {r : Reply} {k : Json}

/-! ## One call -/

/-- A negative call is refused, and leaves the source as it is. -/
theorem serve_negative (cs : Cursors) (h : c.Negative) :
    (∃ e : WalletError, e.kind = .configuration ∧
      (inMemory.serve c cs).1.failure? = some (.wallet e)) ∧ (inMemory.serve c cs).2 = cs := by
  cases c with
  | reserve k' n =>
    have hrefused : cs.reserve k' n = (refuse .negativeReservation, cs) := if_pos h
    change (∃ e, _ ∧ Reply.failure? (.block (cs.reserve k' n).1) = _) ∧ (cs.reserve k' n).2 = cs
    rw [hrefused]
    exact ⟨⟨.negativeReservation, rfl, rfl⟩, rfl⟩
  | setNext k' v =>
    have hrefused : cs.setNext k' v = (refuse .negativeCounter, cs) := if_pos h
    change (∃ e, _ ∧ Reply.failure? (.moved (cs.setNext k' v).1) = _) ∧ (cs.setNext k' v).2 = cs
    rw [hrefused]
    exact ⟨⟨.negativeCounter, rfl, rfl⟩, rfl⟩
  | advance k' least => cases h
  | snapshot => cases h

theorem serve_reserve {n : Int} (hn : 0 ≤ n) (cs : Cursors) (k : Json) :
    inMemory.serve (.reserve k n) cs =
      (.block (.ok ⟨cs.next k, n⟩), if n = 0 then cs else cs.set k (cs.next k + n)) := by
  have hgranted : cs.reserve k n =
      (.ok ⟨cs.next k, n⟩, if n = 0 then cs else cs.set k (cs.next k + n)) :=
    if_neg (Int.not_lt.mpr hn)
  change ((cs.reserve k n).map .block id : Reply × Cursors) = _
  rw [hgranted]
  rfl

theorem serve_setNext {v : Int} (hv : 0 ≤ v) (cs : Cursors) (k : Json) :
    inMemory.serve (.setNext k v) cs = (.moved (.ok ()), cs.set k v) := by
  have hset : cs.setNext k v = (.ok (), cs.set k v) := if_neg (Int.not_lt.mpr hv)
  change ((cs.setNext k v).map .moved id : Reply × Cursors) = _
  rw [hset]
  rfl

/-- What the source makes of a call, with all that it does to the cursors. -/
inductive Served (cs : Cursors) : Call → Reply → Cursors → Prop where
  | refused {c : Call} {r : Reply} (h : c.Negative) (hr : r.failure? ≠ none) : Served cs c r cs
  | peeked (k : Json) : Served cs (.reserve k 0) (.block (.ok ⟨cs.next k, 0⟩)) cs
  | reserved (k : Json) {n : Int} (hn : 0 < n) :
    Served cs (.reserve k n) (.block (.ok ⟨cs.next k, n⟩)) (cs.set k (cs.next k + n))
  | advanced (k : Json) (least : Int) :
    Served cs (.advance k least) (.moved (.ok ())) (cs.advance k least)
  | set (k : Json) {v : Int} (hv : 0 ≤ v) : Served cs (.setNext k v) (.moved (.ok ())) (cs.set k v)
  | listed : Served cs .snapshot (.cursors (.ok cs)) cs

theorem served_serve (c : Call) (cs : Cursors) :
    Served cs c (inMemory.serve c cs).1 (inMemory.serve c cs).2 := by
  by_cases hneg : c.Negative
  · obtain ⟨⟨e, -, hfailure⟩, hsame⟩ := serve_negative cs hneg
    rw [hsame]
    refine .refused hneg ?_
    rw [hfailure]
    exact Option.some_ne_none _
  cases c with
  | reserve k n =>
    have hn : 0 ≤ n := Int.not_lt.mp hneg
    rw [serve_reserve hn]
    by_cases hzero : n = 0
    · rw [if_pos hzero, hzero]
      exact .peeked k
    · rw [if_neg hzero]
      exact .reserved k (by omega)
  | advance k least => exact .advanced k least
  | setNext k v =>
    have hv : 0 ≤ v := Int.not_lt.mp hneg
    rw [serve_setNext hv]
    exact .set k hv
  | snapshot => exact .listed

/-- Only negative calls are refused. -/
theorem Served.failure (h : Served cs c r cs') : r.failure? ≠ none ↔ c.Negative := by
  cases h with
  | refused h hr => exact ⟨fun _ => h, fun _ => hr⟩
  | peeked k => exact ⟨fun h => absurd rfl h, fun h => absurd h (Int.lt_irrefl 0)⟩
  | reserved k hn => exact ⟨fun h => absurd rfl h, fun h => absurd (Int.lt_trans hn h) (Int.lt_irrefl 0)⟩
  | advanced k least => exact ⟨fun h => absurd rfl h, fun h => h.elim⟩
  | set k hv => exact ⟨fun h => absurd rfl h, fun h => absurd h (Int.not_lt.mpr hv)⟩
  | listed => exact ⟨fun h => absurd rfl h, fun h => h.elim⟩

/-- A call on one keyset leaves the cursors of others where they are. -/
theorem Served.others (h : Served cs c r cs') (hk : ¬ c.On k) : cs'.next k = cs.next k := by
  cases h with
  | refused | peeked | listed => rfl
  | reserved k' hn => exact (Cursors.next_set ..).trans (if_neg hk)
  | advanced k' least => exact (Cursors.next_advance ..).trans (if_neg hk)
  | set k' hv => exact (Cursors.next_set ..).trans (if_neg hk)

/-! ## No cursor is negative -/

/-- No cursor is below zero. -/
def Nonnegative (cs : Cursors) : Prop := ∀ c ∈ cs, 0 ≤ c.2

theorem Nonnegative.next (h : Nonnegative cs) (k : Json) : 0 ≤ cs.next k := by
  induction cs with
  | nil => exact Int.le_refl 0
  | cons c cs ih =>
    obtain ⟨hc, hcs⟩ := List.forall_mem_cons.mp h
    rw [Cursors.next_cons]
    split
    · exact hc
    · exact ih hcs

theorem Nonnegative.set (h : Nonnegative cs) {v : Int} (hv : 0 ≤ v) (k : Json) :
    Nonnegative (cs.set k v) := by
  induction cs with
  | nil => exact List.forall_mem_singleton.mpr hv
  | cons c cs ih =>
    obtain ⟨hc, hcs⟩ := List.forall_mem_cons.mp h
    rw [Cursors.set]
    split
    · exact List.forall_mem_cons.mpr ⟨hv, hcs⟩
    · exact List.forall_mem_cons.mpr ⟨hc, ih hcs⟩

theorem Served.nonnegative (h : Served cs c r cs') (hcs : Nonnegative cs) : Nonnegative cs' := by
  cases h with
  | refused | peeked | listed => exact hcs
  | reserved k hn =>
    have hnext := hcs.next k
    exact hcs.set (by omega) k
  | advanced k least =>
    unfold Cursors.advance
    split
    · rename_i hlt
      have hnext := hcs.next k
      exact hcs.set (by omega) k
    · exact hcs
  | set k hv => exact hcs.set hv k

/-! ## Blocks in a row -/

/-- Blocks on the way from one counter to another; `R` says what may lie between the
end of one and the start of the next. -/
def Chained (R : Int → Int → Prop) : Int → List CounterBlock → Int → Prop
  | start, [], stop => R start stop
  | start, b :: bs, stop => R start b.start ∧ Chained R b.next bs stop

section Chained

variable {R : Int → Int → Prop} {bs bs' : List CounterBlock} {start middle stop : Int}

theorem Chained.append (hR : ∀ a b c, R a b → R b c → R a c) (h : Chained R start bs middle)
    (h' : Chained R middle bs' stop) : Chained R start (bs ++ bs') stop := by
  induction bs generalizing start with
  | nil =>
    cases bs' with
    | nil => exact hR _ _ _ h h'
    | cons b bs' => exact ⟨hR _ _ _ h h'.1, h'.2⟩
  | cons b bs ih => exact ⟨h.1, ih h.2⟩

/-- Where counters are only left out, never repeated, blocks lie between the ends and
each is over before the next one starts. -/
theorem Chained.within (hb : ∀ b ∈ bs, 0 < b.count) (h : Chained (· ≤ ·) start bs stop) :
    start ≤ stop ∧ (∀ b ∈ bs, start ≤ b.start ∧ b.next ≤ stop) ∧
      bs.Pairwise fun b b' => b.next ≤ b'.start := by
  induction bs generalizing start with
  | nil => exact ⟨h, by simp, .nil⟩
  | cons b bs ih =>
    obtain ⟨hpos, hrest⟩ := List.forall_mem_cons.mp hb
    obtain ⟨hle, hin, hpair⟩ := ih hrest h.2
    have hstart : start ≤ b.start := h.1
    have hnext : b.next = b.start + b.count := rfl
    refine ⟨by omega, List.forall_mem_cons.mpr ⟨⟨hstart, hle⟩, ?_⟩, ?_⟩
    · intro b' hb'
      have hb'' := hin b' hb'
      exact ⟨by omega, hb''.2⟩
    · exact List.pairwise_cons.mpr ⟨fun b' hb' => (hin b' hb').1, hpair⟩

end Chained

/-! ## Runs -/

section Runs

variable {R : Int → Int → Prop} {d d' : Desk Cursors} {tr : List Event}

/-- What a call hands out of a keyset that it does not set fills the way from the
cursor before to the cursor after, but for what it skips. -/
theorem Served.chained (h : Served cs c r cs') (hR : ∀ a, R a a)
    (hset : ¬ (Event.served c r).Sets k)
    (hskip : (Event.served c r).Advances k → ∀ a b, a ≤ b → R a b) :
    Chained R (cs.next k) (blocks k [.served c r]) (cs'.next k) := by
  cases h with
  | refused h hr =>
    rw [blocks_refused k _ hr]
    exact hR _
  | peeked k' =>
    rw [blocks_granted, if_neg fun hb => Int.lt_irrefl 0 hb.2]
    exact hR _
  | @reserved k' n hn =>
    rw [blocks_granted, Cursors.next_set]
    by_cases hk : k'.same k
    · rw [if_pos ⟨hk, hn⟩, if_pos hk, ← Cursors.next_congr cs hk]
      exact ⟨hR _, hR _⟩
    · rw [if_neg fun hb => hk hb.1, if_neg hk]
      exact hR _
  | advanced k' least =>
    change R (cs.next k) ((cs.advance k' least).next k)
    rw [Cursors.next_advance]
    by_cases hk : k'.same k
    · rw [if_pos hk]
      exact hskip hk _ _ (Int.le_max_left ..)
    · rw [if_neg hk]
      exact hR _
  | @set k' v hv =>
    change R (cs.next k) ((cs.set k' v).next k)
    rw [Cursors.next_set, if_neg fun hk => hset ⟨hk, hv⟩]
    exact hR _
  | listed => exact hR _

theorem step_nonnegative {e : Event} (hs : Step inMemory d e d') (h : Nonnegative d.state) :
    Nonnegative d'.state := by
  cases hs with
  | arrive | leave => exact h
  | serve s before c after hturn => exact (served_serve c s).nonnegative h

/-- A run keeps every cursor from going below zero. -/
theorem run_nonnegative (hr : Run inMemory d tr d') (h : Nonnegative d.state) :
    Nonnegative d'.state := by
  induction hr with
  | refl => exact h
  | tail _ hs ih => exact step_nonnegative hs ih

theorem step_chained {e : Event} (hs : Step inMemory d e d') (hR : ∀ a, R a a) (hset : ¬ e.Sets k)
    (hskip : e.Advances k → ∀ a b, a ≤ b → R a b) :
    Chained R (d.state.next k) (blocks k [e]) (d'.state.next k) := by
  cases hs with
  | arrive | leave => exact hR _
  | serve s before c after hturn => exact (served_serve c s).chained hR hset hskip

/-- So does a run in which nobody sets the cursor: its blocks fill the way from the
first cursor to the last, but for what is skipped. -/
theorem run_chained (hr : Run inMemory d tr d') (hR : ∀ a, R a a)
    (htrans : ∀ a b c, R a b → R b c → R a c) (hset : ∀ e ∈ tr, ¬ e.Sets k)
    (hskip : ∀ e ∈ tr, e.Advances k → ∀ a b, a ≤ b → R a b) :
    Chained R (d.state.next k) (blocks k tr) (d'.state.next k) := by
  induction hr with
  | refl => exact hR _
  | @tail d' d'' tr e _ hs ih =>
    rw [List.forall_mem_append, List.forall_mem_singleton] at hset hskip
    rw [blocks_append]
    exact (ih hset.1 hskip.1).append htrans (step_chained hs hR hset.2 hskip.2)

/-- What the calls of a run hand out of a keyset whose cursor nobody sets meanwhile. -/
structure HandsOut (k : Json) (cs : Cursors) (tr : List Event) (cs' : Cursors) : Prop where
  forward : cs.next k ≤ cs'.next k
  within : ∀ b ∈ blocks k tr, 0 < b.count ∧ cs.next k ≤ b.start ∧ b.next ≤ cs'.next k
  increasing : (blocks k tr).Pairwise fun b b' => b.next ≤ b'.start
  contiguous : (∀ e ∈ tr, ¬ e.Advances k) → Chained Eq (cs.next k) (blocks k tr) (cs'.next k)

theorem run_handsOut (hr : Run inMemory d tr d') (hset : ∀ e ∈ tr, ¬ e.Sets k) :
    HandsOut k d.state tr d'.state := by
  have hle : Chained (· ≤ ·) (d.state.next k) (blocks k tr) (d'.state.next k) :=
    run_chained hr Int.le_refl (fun _ _ _ => Int.le_trans) hset fun _ _ _ _ _ h => h
  obtain ⟨hforward, hin, hpair⟩ := hle.within fun b => pos_of_mem_blocks
  refine ⟨hforward, fun b hb => ⟨pos_of_mem_blocks hb, hin b hb⟩, hpair, fun hskip => ?_⟩
  exact run_chained hr (fun _ => rfl) (fun _ _ _ => Eq.trans) hset fun e he h => absurd h (hskip e he)

/-- The cursors of a source in memory can be listed, and begun with again. -/
theorem begin_again (h : Nonnegative cs) :
    (inMemory.snapshot cs >>= Cursors.ofInitial) = .ok cs := by
  have hnone : (cs.any fun c => c.2 < 0) = false := by
    rw [List.any_eq_false]
    intro c hc
    have hnonneg := h c hc
    simpa using hnonneg
  change Cursors.ofInitial cs = _
  rw [Cursors.ofInitial, hnone]
  rfl

/-- However calls arrive at a source in memory and take turns: no cursor is negative,
a call that is refused or asks for no counter changes nothing, no call moves the
cursor of another keyset, what is handed out between two settings of a cursor does
not overlap, and a source that begins with the cursors of this one replies the same. -/
theorem inMemory_allocates {initial : Cursors} (hi : ∀ c ∈ initial, 0 ≤ c.2) :
    Cursors.ofInitial initial = .ok initial ∧
      ∀ tr₁ d₁ tr₂ d₂, Run inMemory ⟨initial, []⟩ tr₁ d₁ → Run inMemory d₁ tr₂ d₂ →
        (∀ k, 0 ≤ d₁.state.next k) ∧
        (∀ c, (inMemory.serve c d₁.state).1.failure? ≠ none ↔ c.Negative) ∧
        (∀ c, c.Negative → (inMemory.serve c d₁.state).2 = d₁.state) ∧
        (∀ k, inMemory.serve (.reserve k 0) d₁.state =
          (.block (.ok ⟨d₁.state.next k, 0⟩), d₁.state)) ∧
        (∀ k c, ¬ c.On k → (inMemory.serve c d₁.state).2.next k = d₁.state.next k) ∧
        (∀ k, (∀ e ∈ tr₂, ¬ e.Sets k) → HandsOut k d₁.state tr₂ d₂.state) ∧
        ∃ again, (inMemory.snapshot d₁.state >>= Cursors.ofInitial) = .ok again ∧
          ∀ calls, inMemory.replies calls again = inMemory.replies calls d₁.state := by
  have hinitial : Cursors.ofInitial initial = .ok initial := begin_again hi
  refine ⟨hinitial, fun tr₁ d₁ tr₂ d₂ h₁ h₂ => ?_⟩
  have hnonneg : Nonnegative d₁.state := run_nonnegative h₁ hi
  refine ⟨hnonneg.next, fun c => (served_serve c _).failure, fun c hc => (serve_negative _ hc).2,
    fun k => ?_, fun k c => (served_serve c _).others, fun k => run_handsOut h₂,
    d₁.state, begin_again hnonneg, fun calls => rfl⟩
  rw [serve_reserve (Int.le_refl 0), if_pos rfl]

def keysetA : Json := .str "00a"

def keysetB : Json := .str "00b"

/-- A call on another keyset and one that is refused are served before their turn; the
blocks of the first keyset tile the way that its cursor goes. -/
theorem inMemory_allocates_out_of_turn :
    ∃ tr cs, Run inMemory ⟨[(keysetA, 5)], []⟩ tr ⟨cs, []⟩ ∧
      blocks keysetA tr = [⟨5, 2⟩, ⟨7, 3⟩] ∧ HandsOut keysetA [(keysetA, 5)] tr cs ∧
      cs.next keysetA = 10 ∧ 0 ≤ cs.next keysetB := by
  let initial : Cursors := [(keysetA, 5)]
  let first : Call := .reserve keysetA 2
  let second : Call := .reserve keysetA 3
  let other : Call := .reserve keysetB 4
  let wrong : Call := .reserve keysetA (-1)
  have hi : ∀ c ∈ initial, 0 ≤ c.2 := by decide
  have harrived : Run inMemory ⟨initial, []⟩ _ ⟨initial, [first, other, second, wrong]⟩ :=
    ((((Run.refl _).tail (.arrive ..)).tail (.arrive ..)).tail (.arrive ..)).tail (.arrive ..)
  have hother := harrived.tail (.serve _ [first] other [second, wrong] (by decide +kernel))
  have hwrong := hother.tail (.serve _ [first, second] wrong [] (by decide +kernel))
  have hfirst := hwrong.tail (.serve _ [] first [second] (by decide))
  have hsecond := hfirst.tail (.serve _ [] second [] (by decide))
  obtain ⟨-, hall⟩ := inMemory_allocates hi
  obtain ⟨hnonneg, -⟩ := hall _ _ _ _ hsecond (Run.refl _)
  obtain ⟨-, -, -, -, -, hblocks, -⟩ := hall _ _ _ _ (Run.refl _) hsecond
  exact ⟨_, _, hsecond, by decide +kernel, hblocks keysetA (by decide +kernel), by decide +kernel,
    hnonneg keysetB⟩

end Runs

end Ecash.CounterSource
